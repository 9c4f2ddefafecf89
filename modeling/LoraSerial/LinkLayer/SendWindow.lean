import LoraSerial.LinkLayer.Footprint
import Mathlib.Data.List.TakeWhile

/-!
Owns what each sending-side function does to the send window and the send ring:
popping payloads, filling, marking, sliding and encoding. Marking never changes
the sequence number or the payload of a frame; an acknowledgement removes a prefix
whose frames were all reported. Does not own an invariant.
-/

namespace LoraSerial.LinkLayer

open Library

/-! ### Marks -/

/-- The part of a window frame that marking leaves alone. -/
def Frame.cargo (f : Frame) : UInt8 × Bytes :=
  (f.seq, f.raw)

@[simp] theorem cargo_markAcked (f : Frame) : (markAcked f).cargo = f.cargo := rfl

@[simp] theorem cargo_stampSent (now : UInt32) (f : Frame) :
    (Link.stampSent now f).cargo = f.cargo := rfl

theorem map_cargo_markSeq (seq : UInt8) (win : List Frame) :
    (markSeq seq win).map Frame.cargo = win.map Frame.cargo := by
  induction win with
  | nil => rfl
  | cons f rest inductionHypothesis =>
      rw [markSeq]
      split
      · rfl
      · rw [List.map_cons, List.map_cons, inductionHypothesis]

theorem map_cargo_flagSkipped (win : List Frame) :
    (flagSkipped win).1.map Frame.cargo = win.map Frame.cargo := by
  induction win with
  | nil => rfl
  | cons f rest inductionHypothesis =>
      rw [flagSkipped]
      split
      · rw [List.map_cons, List.map_cons, inductionHypothesis]
      · split
        · rw [List.map_cons, List.map_cons, inductionHypothesis]
          rfl
        · rw [List.map_cons, List.map_cons, inductionHypothesis]

theorem map_acked_flagSkipped (win : List Frame) :
    (flagSkipped win).1.map Frame.acked = win.map Frame.acked := by
  induction win with
  | nil => rfl
  | cons f rest inductionHypothesis =>
      rw [flagSkipped]
      split
      · rw [List.map_cons, List.map_cons, inductionHypothesis]
      · split <;> rw [List.map_cons, List.map_cons, inductionHypothesis]

/-- Marking a sequence number acks at most the frames that carry it. -/
theorem getElem?_markSeq {seq : UInt8} {win : List Frame} {index : Nat} {f : Frame}
    (found : (markSeq seq win)[index]? = some f) (acked : f.acked = true) :
    ∃ g, win[index]? = some g ∧ (g.acked = true ∨ g.seq = seq) := by
  induction win generalizing index with
  | nil => simp [markSeq] at found
  | cons first rest inductionHypothesis =>
      rw [markSeq] at found
      split at found
      next same =>
        cases index with
        | zero => exact ⟨first, rfl, Or.inr same⟩
        | succ index => exact ⟨f, found, Or.inl acked⟩
      next different =>
        cases index with
        | zero =>
            have same : first = f := by simpa using found
            exact ⟨first, rfl, Or.inl (by rw [same, acked])⟩
        | succ index => exact inductionHypothesis (by simpa using found)

theorem map_cargo_markSack (ack : UInt8) (sack : UInt16) (win : List Frame) :
    (markSack ack sack win).map Frame.cargo = win.map Frame.cargo := by
  unfold markSack
  generalize List.range (maxWin - 1) = bits
  induction bits generalizing win with
  | nil => rfl
  | cons k rest inductionHypothesis =>
      rw [List.foldl_cons, inductionHypothesis]
      split
      · exact map_cargo_markSeq _ _
      · rfl

/-- The SACK bitmap acks at most the frames whose bit is set. -/
theorem getElem?_markSack {ack : UInt8} {sack : UInt16} {win : List Frame} {index : Nat}
    {f : Frame} (found : (markSack ack sack win)[index]? = some f) (acked : f.acked = true) :
    ∃ g, win[index]? = some g ∧
      (g.acked = true ∨ ∃ k < maxWin - 1, sackBit sack k = true ∧ g.seq = ack + 1 + UInt8.ofNat k)
    := by
  unfold markSack at found
  have range : ∀ k ∈ List.range (maxWin - 1), k < maxWin - 1 := fun k => List.mem_range.mp
  generalize List.range (maxWin - 1) = bits at found range
  induction bits generalizing win with
  | nil => exact ⟨f, found, Or.inl acked⟩
  | cons k rest inductionHypothesis =>
      rw [List.foldl_cons] at found
      obtain ⟨g, member, marked⟩ :=
        inductionHypothesis found fun j later => range j (List.mem_cons_of_mem _ later)
      split at member
      next reported =>
        rcases marked with alreadyAcked | later
        · obtain ⟨original, position, cause⟩ := getElem?_markSeq member alreadyAcked
          exact ⟨original, position, cause.imp id fun same =>
            ⟨k, range k List.mem_cons_self, reported, same⟩⟩
        · have sameCargo := congrArg (fun list => list[index]?) (map_cargo_markSeq
            (ack + 1 + UInt8.ofNat k) win)
          simp only [List.getElem?_map, member, Option.map_some] at sameCargo
          obtain ⟨original, position, same⟩ := Option.map_eq_some_iff.mp sameCargo.symm
          have sameSeq : original.seq = g.seq := congrArg Prod.fst same
          exact ⟨original, position, Or.inr (by rw [sameSeq]; exact later)⟩
      next => exact ⟨g, member, marked⟩

/-- Equal cargo, frame by frame. -/
theorem getElem?_of_map_cargo {left right : List Frame}
    (same : left.map Frame.cargo = right.map Frame.cargo) {index : Nat} {f : Frame}
    (found : left[index]? = some f) : ∃ g, right[index]? = some g ∧ g.cargo = f.cargo := by
  have positions := congrArg (fun list => list[index]?) same
  simp only [List.getElem?_map, found, Option.map_some] at positions
  exact Option.map_eq_some_iff.mp positions.symm

theorem length_eq_of_map_cargo {left right : List Frame}
    (same : left.map Frame.cargo = right.map Frame.cargo) : left.length = right.length := by
  simpa using congrArg List.length same

namespace Link

variable {RING : Nat}

/-! ### Filling -/

/-- Popping takes a prefix of the queue: as much as fits. -/
theorem popPayload_spec (max : Nat) {ring : RingBuffer UInt8 RING} (valid : ring.WellFormed) :
    (popPayload max ring).2.WellFormed ∧
      ring.contents = (popPayload max ring).1 ++ (popPayload max ring).2.contents ∧
      (popPayload max ring).1.length ≤ max := by
  induction max generalizing ring with
  | zero => exact ⟨valid, rfl, Nat.le_refl 0⟩
  | succ max inductionHypothesis =>
      rw [popPayload]
      split
      next nonempty =>
        obtain ⟨wellFormed, split, short⟩ := inductionHypothesis valid.pop
        refine ⟨wellFormed, ?_, Nat.succ_le_succ short⟩
        rw [valid.contents_pop nonempty, split]
        rfl
      next => exact ⟨valid, rfl, Nat.zero_le _⟩

theorem popPayload_nonempty {max : Nat} {ring : RingBuffer UInt8 RING} (room : 0 < max)
    (nonempty : 0 < ring.count) : 0 < (popPayload max ring).1.length := by
  obtain ⟨rest, rfl⟩ : ∃ rest, max = rest + 1 := ⟨max - 1, by omega⟩
  rw [popPayload, if_pos nonempty]
  exact Nat.succ_pos _

/-- What every framing step preserves holds after filling. -/
theorem fillLoop_induction {motive : Link RING → Prop}
    (step : ∀ link, link.canFrame = true → motive link → motive link.frameNext) (fuel : Nat)
    {link : Link RING} (initial : motive link) : motive (link.fillLoop fuel) := by
  induction fuel generalizing link with
  | zero => exact initial
  | succ fuel inductionHypothesis =>
      rw [fillLoop]
      split
      next framed => exact inductionHypothesis (step link framed initial)
      next => exact initial

theorem fillWindow_induction {motive : Link RING → Prop} {link : Link RING}
    (step : ∀ link, link.canFrame = true → motive link → motive link.frameNext)
    (initial : motive link) : motive link.fillWindow :=
  fillLoop_induction step _ initial

/-- Filling appends unacked frames, within the configured window, and cuts their
payloads off the front of the send ring. -/
structure Fills (link filled : Link RING) (added : List Frame) : Prop where
  result : ∃ ring next, filled = { link with
    sRing := ring, win := link.win ++ added, nextSeq := next }
  wellFormed : filled.sRing.WellFormed
  contents : link.sRing.contents = (added.map Frame.raw).flatten ++ filled.sRing.contents
  room : added = [] ∨ link.win.length + added.length ≤ link.cfg.window.toNat
  fresh : ∀ f ∈ added, f.acked = false

/-- The frame that `frameNext` appends. -/
def nextFrame (link : Link RING) : Frame where
  seq := link.nextSeq
  raw := (popPayload maxPay link.sRing).1
  sentAt := 0
  everSent := false
  txThisTurn := false
  acked := false
  fastResend := false

theorem Fills.frameNext {link filled : Link RING} {added : List Frame}
    (fills : link.Fills filled added) (ready : filled.canFrame = true) :
    link.Fills filled.frameNext (added ++ [filled.nextFrame]) := by
  obtain ⟨next, result⟩ := fills.result
  obtain ⟨popped, front, -⟩ := popPayload_spec maxPay fills.wellFormed
  have contents := fills.contents
  have fresh := fills.fresh
  obtain ⟨ring, next, rfl⟩ := fills.result
  refine ⟨⟨(popPayload maxPay ring).2, next + 1, ?_⟩, popped, ?_, Or.inr ?_, ?_⟩
  · simp only [Link.frameNext, nextFrame, List.append_assoc]
  · rw [contents, front]
    simp [Link.frameNext, nextFrame]
  · simp only [canFrame, Bool.and_eq_true, decide_eq_true_eq, List.length_append] at ready
    simp only [List.length_append, List.length_singleton]
    omega
  · intro f member
    rcases List.mem_append.mp member with old | new
    · exact fresh f old
    · rw [List.mem_singleton.mp new]
      rfl

theorem fillWindow_fills {link : Link RING} (valid : link.sRing.WellFormed) :
    ∃ added, link.Fills link.fillWindow added :=
  fillWindow_induction (motive := fun filled => ∃ added, link.Fills filled added)
    (fun _ ready ⟨_, fills⟩ => ⟨_, fills.frameNext ready⟩)
    ⟨[], ⟨link.sRing, link.nextSeq, by rw [List.append_nil]⟩, valid, rfl, Or.inl rfl, by simp⟩

/-- The fill loop stops for the reason the source's loop does. -/
theorem canFrame_fillWindow (link : Link RING) : link.fillWindow.canFrame = false := by
  have stops : ∀ fuel (link : Link RING), link.cfg.window.toNat ≤ link.win.length + fuel →
      (link.fillLoop fuel).canFrame = false := by
    intro fuel
    induction fuel with
    | zero =>
        intro link enough
        have full : ¬link.win.length < link.cfg.window.toNat := by omega
        simp [fillLoop, canFrame, full]
    | succ fuel inductionHypothesis =>
        intro link enough
        rw [fillLoop]
        split
        next =>
          apply inductionHypothesis
          simp only [frameNext, List.length_append, List.length_singleton]
          omega
        next stopped => simpa using stopped
  exact stops _ link (Nat.le_add_left _ _)

/-! ### Sending -/

theorem map_cargo_modify (win : List Frame) (pick : Nat) (now : UInt32) :
    (win.modify pick (stampSent now)).map Frame.cargo = win.map Frame.cargo := by
  induction win generalizing pick with
  | nil => cases pick <;> rfl
  | cons f rest inductionHypothesis =>
      cases pick with
      | zero => rfl
      | succ pick => simp [List.modify_succ_cons, inductionHypothesis pick]

theorem map_acked_modify (win : List Frame) (pick : Nat) (now : UInt32) :
    (win.modify pick (stampSent now)).map Frame.acked = win.map Frame.acked := by
  induction win generalizing pick with
  | nil => cases pick <;> rfl
  | cons f rest inductionHypothesis =>
      cases pick with
      | zero => rfl
      | succ pick => simp [List.modify_succ_cons, inductionHypothesis pick]

/-- The picked frame is the window frame at its index. -/
theorem picked_mem {link : Link RING} {now : UInt32} {f : Frame} {pick : Nat}
    (found : link.win.zipIdx.find? (fun entry => link.sendable now entry.1) = some (f, pick)) :
    link.win[pick]? = some f := by
  have member := List.mem_of_find?_eq_some found
  exact List.mk_mem_zipIdx_iff_getElem?.mp member

/-! ### Acknowledgements -/

/-- A cumulative ack inside the window. -/
def AckCovers (link : Link RING) (ack : UInt8) (index : Nat) : Prop :=
  index < (ack - link.baseSeq).toNat ∧ (ack - link.baseSeq).toNat ≤ link.win.length

/-- Frame `index` of the window is reported by this ack and bitmap. -/
def Reported (link : Link RING) (ack : UInt8) (sack : UInt16) (index : Nat) (f : Frame) : Prop :=
  link.AckCovers ack index ∨
    ∃ k < maxWin - 1, sackBit sack k = true ∧ f.seq = ack + 1 + UInt8.ofNat k

theorem map_cargo_markCumulative (link : Link RING) (ack : UInt8) :
    (link.markCumulative ack).win.map Frame.cargo = link.win.map Frame.cargo := by
  unfold markCumulative
  simp only
  split
  · simp only [List.map_append, List.map_map]
    rw [show Frame.cargo ∘ markAcked = Frame.cargo from rfl, ← List.map_append,
      List.take_append_drop]
  · rfl

theorem getElem?_markCumulative {link : Link RING} {ack : UInt8} {index : Nat} {f : Frame}
    (found : (link.markCumulative ack).win[index]? = some f) (acked : f.acked = true) :
    ∃ g, link.win[index]? = some g ∧ (g.acked = true ∨ link.AckCovers ack index) := by
  have marked := found
  unfold markCumulative at found
  simp only at found
  split at found
  next covered =>
    by_cases inside : index < (ack - link.baseSeq).toNat
    · obtain ⟨g, position, -⟩ :=
        getElem?_of_map_cargo (map_cargo_markCumulative link ack) marked
      exact ⟨g, position, Or.inr ⟨inside, covered.2⟩⟩
    · rw [List.getElem?_append_right (by simp; omega), List.getElem?_drop] at found
      refine ⟨f, ?_, Or.inl acked⟩
      rw [← found]
      congr 1
      simp
      omega
  next => exact ⟨f, found, Or.inl acked⟩

/-- The window after marking and before sliding. -/
def markedWindow (link : Link RING) (ack : UInt8) (sack : UInt16) : List Frame :=
  markSack ack sack (link.markCumulative ack).win

theorem map_cargo_markedWindow (link : Link RING) (ack : UInt8) (sack : UInt16) :
    (link.markedWindow ack sack).map Frame.cargo = link.win.map Frame.cargo := by
  rw [markedWindow, map_cargo_markSack, map_cargo_markCumulative]

/-- A frame acked by marking was acked before or is reported. -/
theorem getElem?_markedWindow {link : Link RING} {ack : UInt8} {sack : UInt16} {index : Nat}
    {f : Frame} (found : (link.markedWindow ack sack)[index]? = some f) (acked : f.acked = true) :
    ∃ g, link.win[index]? = some g ∧ (g.acked = true ∨ link.Reported ack sack index g) := by
  obtain ⟨marked, position, cause⟩ := getElem?_markSack found acked
  rcases cause with alreadyAcked | ⟨k, below, bit, same⟩
  · obtain ⟨g, original, origin⟩ := getElem?_markCumulative position alreadyAcked
    exact ⟨g, original, origin.imp id Or.inl⟩
  · obtain ⟨g, original, sameCargo⟩ :=
      getElem?_of_map_cargo (map_cargo_markCumulative link ack) position
    have sameSeq : g.seq = marked.seq := congrArg Prod.fst sameCargo
    exact ⟨g, original, Or.inr (Or.inr ⟨k, below, bit, by rw [sameSeq, same]⟩)⟩

/-- How many frames one acknowledgement removes. -/
def ackedFront (link : Link RING) (ack : UInt8) (sack : UInt16) : Nat :=
  ((link.markedWindow ack sack).takeWhile Frame.acked).length

/-- An acknowledgement changes only the window and its base. -/
theorem ackProcess_link (link : Link RING) (ack : UInt8) (sack : UInt16) :
    link.ackProcess ack sack = { link with
      win := (flagSkipped ((link.markedWindow ack sack).dropWhile Frame.acked)).1
      baseSeq := link.baseSeq + UInt8.ofNat (link.ackedFront ack sack) } := by
  obtain ⟨win, marked⟩ := link.markCumulative_link ack
  simp only [ackProcess, slideWindow, markedWindow, ackedFront, marked]

theorem dropWhile_eq_drop {α : Type} (list : List α) (test : α → Bool) :
    list.dropWhile test = list.drop (list.takeWhile test).length := by
  induction list with
  | nil => rfl
  | cons first rest inductionHypothesis =>
      by_cases passes : test first = true
      · simp [passes, inductionHypothesis]
      · simp [passes]

/-- The removed frames are a prefix of the window. -/
theorem map_cargo_ackProcess (link : Link RING) (ack : UInt8) (sack : UInt16) :
    (link.ackProcess ack sack).win.map Frame.cargo =
      (link.win.map Frame.cargo).drop (link.ackedFront ack sack) := by
  rw [ackProcess_link]
  simp only
  rw [map_cargo_flagSkipped, dropWhile_eq_drop, List.map_drop, map_cargo_markedWindow, ackedFront]

theorem ackedFront_le (link : Link RING) (ack : UInt8) (sack : UInt16) :
    link.ackedFront ack sack ≤ link.win.length := by
  rw [← length_eq_of_map_cargo (link.map_cargo_markedWindow ack sack)]
  exact (List.takeWhile_sublist _).length_le

/-- Every removed frame was acked before or is reported. -/
theorem acked_of_lt_ackedFront {link : Link RING} {ack : UInt8} {sack : UInt16} {index : Nat}
    (removed : index < link.ackedFront ack sack) :
    ∃ g, link.win[index]? = some g ∧ (g.acked = true ∨ link.Reported ack sack index g) := by
  have below : index < ((link.markedWindow ack sack).takeWhile Frame.acked).length := removed
  have acked := List.mem_takeWhile_imp (List.getElem_mem below)
  refine getElem?_markedWindow ?_ acked
  calc (link.markedWindow ack sack)[index]?
      = ((link.markedWindow ack sack).takeWhile Frame.acked ++
          (link.markedWindow ack sack).dropWhile Frame.acked)[index]? := by
        rw [List.takeWhile_append_dropWhile]
    _ = some (((link.markedWindow ack sack).takeWhile Frame.acked)[index]) := by
        rw [List.getElem?_append_left below, List.getElem?_eq_getElem below]

/-- A frame that stays acked was acked before or is reported. -/
theorem acked_of_ackProcess {link : Link RING} {ack : UInt8} {sack : UInt16} {index : Nat}
    {f : Frame} (found : (link.ackProcess ack sack).win[index]? = some f)
    (acked : f.acked = true) :
    ∃ g, link.win[link.ackedFront ack sack + index]? = some g ∧
      (g.acked = true ∨ link.Reported ack sack (link.ackedFront ack sack + index) g) := by
  rw [ackProcess_link] at found
  have sameMarks := congrArg (fun list => list[index]?)
    (map_acked_flagSkipped ((link.markedWindow ack sack).dropWhile Frame.acked))
  simp only [List.getElem?_map, found, Option.map_some] at sameMarks
  obtain ⟨marked, position, sameAcked⟩ := Option.map_eq_some_iff.mp sameMarks.symm
  rw [dropWhile_eq_drop, List.getElem?_drop] at position
  exact getElem?_markedWindow position (sameAcked.trans acked)

/-- The first window frame is never acked once an acknowledgement is applied. -/
theorem head?_ackProcess {link : Link RING} {ack : UInt8} {sack : UInt16} {f : Frame}
    (first : (link.ackProcess ack sack).win.head? = some f) : f.acked = false := by
  rw [ackProcess_link] at first
  have sameMarks := congrArg List.head?
    (map_acked_flagSkipped ((link.markedWindow ack sack).dropWhile Frame.acked))
  simp only [List.head?_map, first, Option.map_some] at sameMarks
  obtain ⟨marked, position, sameAcked⟩ := Option.map_eq_some_iff.mp sameMarks.symm
  have stopped := List.head?_dropWhile_not Frame.acked (link.markedWindow ack sack)
  rw [position] at stopped
  exact sameAcked.symm.trans stopped

end Link

end LoraSerial.LinkLayer
