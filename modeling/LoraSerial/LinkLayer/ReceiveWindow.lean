import LoraSerial.LinkLayer.Operation
import Mathlib.Data.Fintype.Card
import Mathlib.Algebra.Order.BigOperators.Group.Finset

/-!
Owns what each receiving-side function does to the receive slots and the receive
ring: pushing, draining, reading, buffering. With well-formed indices the silent
drop of `RPush` is never taken while draining, and draining stops only where the
source's loop does. Does not own an invariant.
-/

namespace LoraSerial.LinkLayer

open Library

namespace Link

variable {RING : Nat}

/-! ### Pushing -/

theorem rPush_of_free {link : Link RING} (valid : link.rRing.WellFormed)
    (room : 0 < link.rRing.free) (byte : UInt8) :
    link.rPush byte = { link with rRing := link.rRing.push byte } := by
  rw [rPush, if_pos (valid.free_pos_iff.mp room)]

/-- A payload that fits is appended to the queue; nothing else changes, and no
byte is dropped. -/
theorem foldl_rPush (link : Link RING) (valid : link.rRing.WellFormed) {bytes : Bytes}
    (room : bytes.length ≤ link.rRing.free) :
    ∃ ring : RingBuffer UInt8 RING, ring.WellFormed ∧
      ring.contents = link.rRing.contents ++ bytes ∧
      bytes.foldl rPush link = { link with rRing := ring } := by
  induction bytes generalizing link with
  | nil => exact ⟨link.rRing, valid, (List.append_nil _).symm, rfl⟩
  | cons byte rest inductionHypothesis =>
      have positive : 0 < link.rRing.free := Nat.lt_of_lt_of_le (Nat.succ_pos _) room
      have remaining : rest.length ≤ (link.rRing.push byte).free := by
        rw [valid.free_push positive]
        rw [List.length_cons] at room
        omega
      rw [List.foldl_cons, rPush_of_free valid positive]
      obtain ⟨ring, wellFormed, contents, folded⟩ :=
        inductionHypothesis { link with rRing := link.rRing.push byte } (valid.push byte) remaining
      refine ⟨ring, wellFormed, ?_, folded⟩
      rw [contents, valid.contents_push positive, List.append_assoc, List.singleton_append]

/-! ### Draining -/

/-- The slot of the next frame with its `received` mark cleared. -/
def releaseSlot (link : Link RING) : Fin 16 → RxSlot :=
  Function.update link.rx (slotOf link.rxNext)
    { link.rx (slotOf link.rxNext) with received := false }

theorem drainOne_eq {link : Link RING} (valid : link.rRing.WellFormed)
    (ready : link.canDrain = true) :
    ∃ ring : RingBuffer UInt8 RING, ring.WellFormed ∧
      ring.contents = link.rRing.contents ++ (link.rx (slotOf link.rxNext)).buf ∧
      link.drainOne = { link with
        rRing := ring
        rx := link.releaseSlot
        rxNext := link.rxNext + 1
        gotData := true } := by
  have room : (link.rx (slotOf link.rxNext)).buf.length ≤ link.rRing.free := by
    simp only [canDrain, Bool.and_eq_true, decide_eq_true_eq] at ready
    exact ready.2
  obtain ⟨ring, wellFormed, contents, folded⟩ := foldl_rPush link valid room
  refine ⟨ring, wellFormed, contents, ?_⟩
  simp only [drainOne, folded, releaseSlot]

theorem holds_of_canDrain {link : Link RING} (ready : link.canDrain = true) :
    link.holds link.rxNext = true := by
  simp only [canDrain, Bool.and_eq_true] at ready
  exact ready.1

/-- What every drain step preserves holds after draining. -/
theorem drainLoop_induction {motive : Link RING → Prop}
    (step : ∀ link, link.canDrain = true → motive link → motive link.drainOne) (fuel : Nat)
    {link : Link RING} (initial : motive link) : motive (link.drainLoop fuel) := by
  induction fuel generalizing link with
  | zero => exact initial
  | succ fuel inductionHypothesis =>
      rw [drainLoop]
      split
      next ready => exact inductionHypothesis (step link ready initial)
      next => exact initial

theorem drainInOrder_induction {motive : Link RING → Prop} {link : Link RING}
    (step : ∀ link, link.canDrain = true → motive link → motive link.drainOne)
    (initial : motive link) : motive link.drainInOrder :=
  drainLoop_induction step _ initial

/-- Number of buffered frames. -/
def receivedCount (rx : Fin 16 → RxSlot) : Nat :=
  (Finset.univ.filter fun slot => (rx slot).received = true).card

theorem receivedCount_le (rx : Fin 16 → RxSlot) : receivedCount rx ≤ maxWin :=
  (Finset.card_filter_le _ _).trans (by simp [maxWin])

theorem receivedCount_releaseSlot {link : Link RING} (held : link.holds link.rxNext = true) :
    receivedCount link.releaseSlot + 1 = receivedCount link.rx := by
  have received : (link.rx (slotOf link.rxNext)).received = true := by
    simp only [holds, Bool.and_eq_true] at held
    exact held.1
  have erased : Finset.univ.filter (fun slot => (link.releaseSlot slot).received = true) =
      (Finset.univ.filter fun slot => (link.rx slot).received = true).erase
        (slotOf link.rxNext) := by
    ext slot
    rw [Finset.mem_filter, Finset.mem_erase, Finset.mem_filter, releaseSlot]
    by_cases same : slot = slotOf link.rxNext
    · rw [same, Function.update_self]
      simp
    · rw [Function.update_of_ne same]
      simp [same]
  rw [receivedCount, erased, Finset.card_erase_of_mem (by simp [received])]
  have positive : 0 < receivedCount link.rx :=
    Finset.card_pos.mpr ⟨slotOf link.rxNext, by simp [received]⟩
  rw [receivedCount] at positive ⊢
  omega

/-- The drain loop stops for the reason the source's loop does. -/
theorem canDrain_drainInOrder {link : Link RING} (valid : link.rRing.WellFormed) :
    link.drainInOrder.canDrain = false := by
  have stops : ∀ fuel (link : Link RING), link.rRing.WellFormed →
      receivedCount link.rx ≤ fuel → (link.drainLoop fuel).canDrain = false := by
    intro fuel
    induction fuel with
    | zero =>
        intro link _ none
        rw [drainLoop, ← Bool.not_eq_true]
        intro ready
        have counted := receivedCount_releaseSlot (holds_of_canDrain ready)
        omega
    | succ fuel inductionHypothesis =>
        intro link valid enough
        rw [drainLoop]
        split
        next ready =>
          obtain ⟨ring, wellFormed, -, drained⟩ := drainOne_eq valid ready
          have counted := receivedCount_releaseSlot (holds_of_canDrain ready)
          rw [drained]
          exact inductionHypothesis _ wellFormed (by simp only; omega)
        next stopped => simpa using stopped
  exact stops _ link valid (receivedCount_le link.rx)

/-! ### Reading -/

/-- Reading takes a prefix of the queue and changes nothing else. -/
theorem readLoop_spec (max : Nat) (link : Link RING) (valid : link.rRing.WellFormed) :
    ∃ ring : RingBuffer UInt8 RING, ring.WellFormed ∧
      link.rRing.contents = (link.readLoop max).1 ++ ring.contents ∧
      (link.readLoop max).2 = { link with rRing := ring } := by
  induction max generalizing link with
  | zero => exact ⟨link.rRing, valid, rfl, rfl⟩
  | succ max inductionHypothesis =>
      rw [readLoop]
      split
      next nonempty =>
        obtain ⟨ring, wellFormed, contents, left⟩ :=
          inductionHypothesis { link with rRing := link.rRing.pop.2 } valid.pop
        refine ⟨ring, wellFormed, ?_, left⟩
        rw [valid.contents_pop nonempty, contents]
        rfl
      next => exact ⟨link.rRing, valid, rfl, rfl⟩

/-! ### Buffering -/

/-- Buffering changes at most the slot of the frame. -/
theorem storeFrame_cases (link : Link RING) (seq : UInt8) (decoded : Option Bytes) :
    link.storeFrame seq decoded = link ∨
      ∃ buf, decoded = some buf ∧ link.holds seq = false ∧
        link.storeFrame seq decoded = { link with
          rx := Function.update link.rx (slotOf seq)
            { buf := buf, seq := seq, received := true } } := by
  unfold storeFrame
  split
  · exact Or.inl rfl
  next absent =>
    cases decoded with
    | none => exact Or.inl rfl
    | some buf => exact Or.inr ⟨buf, rfl, by simpa using absent, rfl⟩

end Link

end LoraSerial.LinkLayer
