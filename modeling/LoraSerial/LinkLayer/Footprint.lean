import LoraSerial.LinkLayer.Operation

/-!
Owns which fields each call may change. Every statement has the form "the result is
the old link with these fields replaced", so that whatever does not depend on those
fields is kept by `rfl`.
-/

namespace LoraSerial.LinkLayer

open Library

namespace Link

variable {RING : Nat}

theorem write_link (link : Link RING) (d : Bytes) :
    ∃ ring, (link.write d).2 = { link with sRing := ring } := by
  induction d generalizing link with
  | nil => exact ⟨link.sRing, rfl⟩
  | cons byte rest inductionHypothesis =>
      rw [write]
      split
      · obtain ⟨ring, written⟩ := inductionHypothesis { link with sRing := link.sRing.push byte }
        exact ⟨ring, written⟩
      · exact ⟨link.sRing, rfl⟩

theorem maybePersist_link (link : Link RING) :
    ∃ persist, link.maybePersist.1 = { link with lastPersist := persist } := by
  unfold maybePersist
  split
  · exact ⟨link.txCtr64, rfl⟩
  · exact ⟨link.lastPersist, rfl⟩

/-- Encoding touches only the frame counter and its persisted value. -/
theorem encode_link (heatshrink : Heatshrink) (link : Link RING) (cap : Nat) (flags seq : UInt8)
    (raw : Bytes) : ∃ ctr persist, (link.encode heatshrink cap flags seq raw).link =
      { link with txCtr64 := ctr, lastPersist := persist } := by
  simp only [encode]
  split
  · split
    · exact ⟨link.txCtr64, link.lastPersist, rfl⟩
    · obtain ⟨persist, counted⟩ := { link with txCtr64 := link.txCtr64 + 1 }.maybePersist_link
      exact ⟨link.txCtr64 + 1, persist, counted⟩
  · split <;> exact ⟨link.txCtr64, link.lastPersist, rfl⟩

theorem fillWindow_link (link : Link RING) :
    ∃ ring win next, link.fillWindow =
      { link with sRing := ring, win := win, nextSeq := next } := by
  have filled : ∀ fuel (link : Link RING), ∃ ring win next, link.fillLoop fuel =
      { link with sRing := ring, win := win, nextSeq := next } := by
    intro fuel
    induction fuel with
    | zero => exact fun link => ⟨link.sRing, link.win, link.nextSeq, rfl⟩
    | succ fuel inductionHypothesis =>
        intro link
        rw [fillLoop]
        split
        · obtain ⟨ring, win, next, rest⟩ := inductionHypothesis link.frameNext
          exact ⟨ring, win, next, rest⟩
        · exact ⟨link.sRing, link.win, link.nextSeq, rfl⟩
  exact filled _ link

theorem rPush_link (link : Link RING) (bytes : Bytes) :
    ∃ ring dropped, bytes.foldl rPush link =
      { link with rRing := ring, rDropped := dropped } := by
  induction bytes generalizing link with
  | nil => exact ⟨link.rRing, link.rDropped, rfl⟩
  | cons byte rest inductionHypothesis =>
      rw [List.foldl_cons]
      obtain ⟨ring, dropped, pushed⟩ := inductionHypothesis (link.rPush byte)
      refine ⟨ring, dropped, pushed.trans ?_⟩
      unfold rPush
      split <;> rfl

theorem drainInOrder_link (link : Link RING) :
    ∃ ring dropped rx next got, link.drainInOrder =
      { link with
        rRing := ring, rDropped := dropped, rx := rx, rxNext := next, gotData := got } := by
  have drained : ∀ fuel (link : Link RING), ∃ ring dropped rx next got, link.drainLoop fuel =
      { link with
        rRing := ring, rDropped := dropped, rx := rx, rxNext := next, gotData := got } := by
    intro fuel
    induction fuel with
    | zero =>
        exact fun link =>
          ⟨link.rRing, link.rDropped, link.rx, link.rxNext, link.gotData, rfl⟩
    | succ fuel inductionHypothesis =>
        intro link
        rw [drainLoop]
        split
        · obtain ⟨ring, dropped, rx, next, got, rest⟩ := inductionHypothesis link.drainOne
          obtain ⟨pushedRing, pushedDropped, pushed⟩ :=
            link.rPush_link (link.rx (slotOf link.rxNext)).buf
          refine ⟨ring, dropped, rx, next, got, rest.trans ?_⟩
          simp only [drainOne, pushed]
        · exact ⟨link.rRing, link.rDropped, link.rx, link.rxNext, link.gotData, rfl⟩
  exact drained _ link

theorem read_link (link : Link RING) (max : Nat) :
    ∃ ring dropped rx next got, (link.read max).2 =
      { link with
        rRing := ring, rDropped := dropped, rx := rx, rxNext := next, gotData := got } := by
  have taken : ∀ max (link : Link RING), ∃ ring, (link.readLoop max).2 =
      { link with rRing := ring } := by
    intro max
    induction max with
    | zero => exact fun link => ⟨link.rRing, rfl⟩
    | succ max inductionHypothesis =>
        intro link
        rw [readLoop]
        split
        · obtain ⟨ring, rest⟩ := inductionHypothesis { link with rRing := link.rRing.pop.2 }
          exact ⟨ring, rest⟩
        · exact ⟨link.rRing, rfl⟩
  obtain ⟨left, loop⟩ := taken max link
  obtain ⟨ring, dropped, rx, next, got, drained⟩ := (link.readLoop max).2.drainInOrder_link
  refine ⟨ring, dropped, rx, next, got, ?_⟩
  rw [read, drained, loop]

theorem nextTx_link (heatshrink : Heatshrink) (link : Link RING) (cap : Nat) (now : UInt32) :
    ∃ ring win next owed lone sent resent ctr persist,
      (link.nextTx heatshrink cap now).link =
        { link with
          sRing := ring, win := win, nextSeq := next, ackPending := owed, ackSentTurn := lone
          statTx := sent, statRetx := resent, txCtr64 := ctr, lastPersist := persist } := by
  obtain ⟨ring, win, next, filled⟩ := link.fillWindow_link
  simp only [nextTx, filled]
  split
  next f pick _ =>
    simp only [sendFrame]
    obtain ⟨ctr, persist, encoded⟩ := encode_link heatshrink
      ({ link with sRing := ring, win := win, nextSeq := next }.markSent now f pick) cap _ f.seq f.raw
    rw [encoded]
    exact ⟨_, _, _, _, _, _, _, _, _, rfl⟩
  next =>
    split
    · obtain ⟨ctr, persist, encoded⟩ := encode_link heatshrink
        { link with
          sRing := ring, win := win, nextSeq := next, ackSentTurn := true, ackPending := false }
        cap 0 0 []
      rw [encoded]
      exact ⟨_, _, _, _, _, _, _, _, _, rfl⟩
    · exact ⟨ring, win, next, link.ackPending, link.ackSentTurn, link.statTx, link.statRetx,
        link.txCtr64, link.lastPersist, rfl⟩

theorem markCumulative_link (link : Link RING) (ack : UInt8) :
    ∃ win, link.markCumulative ack = { link with win := win } := by
  unfold markCumulative
  simp only
  split
  · exact ⟨_, rfl⟩
  · exact ⟨link.win, rfl⟩

theorem receiveData_link (link : Link RING) (seq : UInt8) (decoded : Option Bytes) :
    ∃ ring dropped rx next got owed, link.receiveData seq decoded =
      { link with
        rRing := ring, rDropped := dropped, rx := rx, rxNext := next, gotData := got
        ackPending := owed } := by
  have stored : ∃ rx, link.storeFrame seq decoded = { link with rx := rx } := by
    unfold storeFrame
    split
    · exact ⟨link.rx, rfl⟩
    · split
      · exact ⟨_, rfl⟩
      · exact ⟨link.rx, rfl⟩
  obtain ⟨slots, stored⟩ := stored
  rw [receiveData]
  split
  · obtain ⟨ring, dropped, rx, next, got, drained⟩ := (link.storeFrame seq decoded).drainInOrder_link
    refine ⟨ring, dropped, rx, next, got, true, ?_⟩
    rw [drained, stored]
  · exact ⟨link.rRing, link.rDropped, link.rx, link.rxNext, link.gotData, true, rfl⟩

/-- A trusted frame leaves configuration, epochs, frame counter and replay window
alone. -/
theorem accept_link (link : Link RING) (h : Header) (decoded : Option Bytes) :
    ∃ win base ctrl aux ring dropped rx next got owed, link.accept h decoded =
      { link with
        win := win, baseSeq := base, rxCtrl := ctrl, rxAux := aux, gotValidRx := true
        rRing := ring, rDropped := dropped, rx := rx, rxNext := next, gotData := got
        ackPending := owed } := by
  have acked : ∀ link : Link RING, ∃ win base, link.ackProcess h.ack h.sack =
      { link with win := win, baseSeq := base } := by
    intro link
    obtain ⟨win, marked⟩ := link.markCumulative_link h.ack
    simp only [ackProcess, slideWindow, marked]
    exact ⟨_, _, rfl⟩
  obtain ⟨win, base, acked⟩ := acked { link with
    rxCtrl := h.flags &&& ctrlMask, rxAux := h.aux, gotValidRx := true }
  rw [accept, acked]
  split
  · obtain ⟨ring, dropped, rx, next, got, owed, received⟩ := receiveData_link
      { link with
        rxCtrl := h.flags &&& ctrlMask, rxAux := h.aux, gotValidRx := true
        win := win, baseSeq := base } h.seq decoded
    rw [received]
    exact ⟨_, _, _, _, _, _, _, _, _, _, rfl⟩
  · exact ⟨win, base, _, _, link.rRing, link.rDropped, link.rx, link.rxNext, link.gotData,
      link.ackPending, rfl⟩

theorem trackEpoch_cases (link : Link RING) (epoch : UInt8) :
    (link.trackEpoch epoch = { link with peerEpoch := epoch } ∧
        (link.peerEpoch = 0 ∨ epoch = link.peerEpoch)) ∨
      (link.trackEpoch epoch = link.resync epoch ∧ link.peerEpoch ≠ 0 ∧ epoch ≠ link.peerEpoch) := by
  unfold trackEpoch
  split
  next unknown => exact Or.inl ⟨rfl, Or.inl unknown⟩
  next known =>
    split
    next changed => exact Or.inr ⟨rfl, known, changed⟩
    next same =>
      have same : epoch = link.peerEpoch := not_not.mp same
      exact Or.inl ⟨by rw [same], Or.inr same⟩

/-! ### Authentication -/

theorem replayOk_link (link : Link RING) (ctr : UInt64) :
    ∃ seeded max window, (link.replayOk ctr).2 =
      { link with rxCtrInit := seeded, rxCtrMax := max, rxWindow := window } := by
  simp only [replayOk]
  split
  · exact ⟨_, _, _, rfl⟩
  · split
    · exact ⟨link.rxCtrInit, _, _, rfl⟩
    · split
      · exact ⟨link.rxCtrInit, link.rxCtrMax, link.rxWindow, rfl⟩
      · split
        · exact ⟨link.rxCtrInit, link.rxCtrMax, link.rxWindow, rfl⟩
        · exact ⟨link.rxCtrInit, link.rxCtrMax, _, rfl⟩

/-- Authentication touches only the replay window. -/
theorem authenticate_link (heatshrink : Heatshrink) (link : Link RING) (input : Bytes)
    (h : Header) (body : Bytes) :
    ∃ seeded max window, (link.authenticate heatshrink input h body).1 =
      { link with rxCtrInit := seeded, rxCtrMax := max, rxWindow := window } := by
  have unchanged : ∃ seeded max window,
      link = { link with rxCtrInit := seeded, rxCtrMax := max, rxWindow := window } :=
    ⟨link.rxCtrInit, link.rxCtrMax, link.rxWindow, rfl⟩
  have opened : ∀ s, ∃ seeded max window, (link.aeadOpen heatshrink h s).1 =
      { link with rxCtrInit := seeded, rxCtrMax := max, rxWindow := window } := by
    intro s
    unfold aeadOpen
    split
    · exact unchanged
    · split
      · exact unchanged
      · dsimp only
        split
        · split <;> exact link.replayOk_link s.ctr
        · exact link.replayOk_link s.ctr
  unfold authenticate
  split
  · exact unchanged
  · split
    · split
      · exact unchanged
      · dsimp only
        split <;> exact opened _
    · exact unchanged

theorem authenticate_ne_accepted (heatshrink : Heatshrink) (link : Link RING) (input : Bytes)
    (h : Header) (body : Bytes) :
    (link.authenticate heatshrink input h body).2 ≠ .error .accepted := by
  have opened : ∀ s, (link.aeadOpen heatshrink h s).2 ≠ .error .accepted := by
    intro s
    unfold aeadOpen
    split
    · simp
    · split
      · simp
      · dsimp only
        split
        · split <;> simp
        · simp
  unfold authenticate
  split
  · simp
  · split
    · split
      · simp
      next s _ =>
        dsimp only
        split
        next exit refused =>
          intro same
          cases same
          exact opened s refused
        · simp
    · simp

/-! ### One frame -/

/-- A frame is ignored, or the epoch is tracked and the frame is then refused, with at
most the replay window touched, or accepted. -/
theorem onRx_cases (heatshrink : Heatshrink) (link : Link RING) {input body : Bytes} {h : Header}
    (parsed : parseHeader input = some (h, body)) :
    (link.onRx heatshrink input).link = link ∨
      link.filters h = false ∧ ∃ seeded max window,
        (link.onRx heatshrink input).link = { link.trackEpoch h.epoch with
            rxCtrInit := seeded, rxCtrMax := max, rxWindow := window } ∨
          ∃ decoded, ((link.trackEpoch h.epoch).authenticate heatshrink input h body).2 =
              .ok decoded ∧
            (link.onRx heatshrink input).link = { link.trackEpoch h.epoch with
              rxCtrInit := seeded, rxCtrMax := max, rxWindow := window }.accept h decoded := by
  simp only [onRx, parsed]
  split
  · exact Or.inl rfl
  next heard =>
    obtain ⟨seeded, max, window, same⟩ :=
      (link.trackEpoch h.epoch).authenticate_link heatshrink input h body
    refine Or.inr ⟨by simpa using heard, seeded, max, window, ?_⟩
    split
    · exact Or.inl same
    next decoded authentic => exact Or.inr ⟨decoded, authentic, by simp only [same]⟩

theorem trackEpoch_known {link : Link RING} {epoch : UInt8}
    (known : link.peerEpoch = 0 ∨ link.peerEpoch = epoch) :
    link.trackEpoch epoch = { link with peerEpoch := epoch } := by
  rcases link.trackEpoch_cases epoch with ⟨tracked, -⟩ | ⟨-, nonzero, changed⟩
  · exact tracked
  · exact absurd (known.resolve_left nonzero).symm changed

/-- Hearing a frame leaves configuration, frame counter, own epoch and send ring
alone. -/
theorem onRx_link (heatshrink : Heatshrink) (link : Link RING) (input : Bytes) :
    ∃ win base next seeded max window epoch reset trusted ctrl aux ring dropped rx expected got
      owed, (link.onRx heatshrink input).link = { link with
        win := win, baseSeq := base, nextSeq := next
        rxCtrInit := seeded, rxCtrMax := max, rxWindow := window
        peerEpoch := epoch, peerReset := reset, gotValidRx := trusted, rxCtrl := ctrl, rxAux := aux
        rRing := ring, rDropped := dropped, rx := rx, rxNext := expected, gotData := got
        ackPending := owed } := by
  cases parsed : parseHeader input with
  | none =>
      simp only [onRx, parsed]
      exact ⟨_, _, _, _, _, _, _, _, _, _, _, _, _, _, _, _, _, rfl⟩
  | some pair =>
      obtain ⟨h, body⟩ := pair
      rcases link.onRx_cases heatshrink parsed with
        same | ⟨-, seeded, max, window, refused | ⟨decoded, -, accepted⟩⟩
      · rw [same]
        exact ⟨_, _, _, _, _, _, _, _, _, _, _, _, _, _, _, _, _, rfl⟩
      · rcases link.trackEpoch_cases h.epoch with ⟨tracked, -⟩ | ⟨tracked, -⟩ <;>
          (rw [refused, tracked]; exact ⟨_, _, _, _, _, _, _, _, _, _, _, _, _, _, _, _, _, rfl⟩)
      · obtain ⟨_, _, _, _, _, _, _, _, _, _, touched⟩ := accept_link
          { link.trackEpoch h.epoch with
            rxCtrInit := seeded, rxCtrMax := max, rxWindow := window } h decoded
        rcases link.trackEpoch_cases h.epoch with ⟨tracked, -⟩ | ⟨tracked, -⟩ <;>
          (rw [accepted, touched, tracked]
           exact ⟨_, _, _, _, _, _, _, _, _, _, _, _, _, _, _, _, _, rfl⟩)

/-- Hearing a frame leaves the recorded epoch or sets it to the frame's. -/
theorem peerEpoch_onRx (heatshrink : Heatshrink) (link : Link RING) {input body : Bytes}
    {h : Header} (parsed : parseHeader input = some (h, body)) :
    (link.onRx heatshrink input).link.peerEpoch = link.peerEpoch ∨
      (link.onRx heatshrink input).link.peerEpoch = h.epoch := by
  have tracked : (link.trackEpoch h.epoch).peerEpoch = h.epoch := by
    rcases link.trackEpoch_cases h.epoch with ⟨tracked, -⟩ | ⟨tracked, -⟩
    · rw [tracked]
    · rw [tracked]
      rfl
  rcases link.onRx_cases heatshrink parsed with
    same | ⟨-, seeded, max, window, refused | ⟨decoded, -, accepted⟩⟩
  · exact Or.inl (by rw [same])
  · rw [refused]
    exact Or.inr tracked
  · obtain ⟨_, _, _, _, _, _, _, _, _, _, touched⟩ := accept_link
      { link.trackEpoch h.epoch with
        rxCtrInit := seeded, rxCtrMax := max, rxWindow := window } h decoded
    rw [accepted, touched]
    exact Or.inr tracked

/-- A frame that does not change a recorded epoch touches at most that epoch and the
replay window, unless it is accepted. -/
theorem onRx_known (heatshrink : Heatshrink) (link : Link RING) {input body : Bytes} {h : Header}
    (parsed : parseHeader input = some (h, body))
    (known : link.peerEpoch = 0 ∨ link.peerEpoch = h.epoch) :
    ∃ epoch seeded max window,
      (link.onRx heatshrink input).link = { link with
          peerEpoch := epoch, rxCtrInit := seeded, rxCtrMax := max, rxWindow := window } ∨
        ∃ decoded, ({ link with peerEpoch := epoch }.authenticate heatshrink input h body).2 =
            .ok decoded ∧
          (link.onRx heatshrink input).link = { link with
            peerEpoch := epoch, rxCtrInit := seeded, rxCtrMax := max
            rxWindow := window }.accept h decoded := by
  have cases := link.onRx_cases heatshrink parsed
  rw [trackEpoch_known known] at cases
  rcases cases with same | ⟨-, seeded, max, window, heard⟩
  · exact ⟨link.peerEpoch, link.rxCtrInit, link.rxCtrMax, link.rxWindow, Or.inl same⟩
  · exact ⟨h.epoch, seeded, max, window, heard⟩

/-- A frame that changes a recorded epoch is ignored, or heard as if the resync had
come first. -/
theorem onRx_changed (heatshrink : Heatshrink) {link : Link RING} {input body : Bytes} {h : Header}
    (parsed : parseHeader input = some (h, body)) (linked : link.peerEpoch ≠ 0)
    (changed : h.epoch ≠ link.peerEpoch) :
    (link.onRx heatshrink input).link = link ∨
      (link.onRx heatshrink input).link = ((link.resync h.epoch).onRx heatshrink input).link := by
  have tracked : link.trackEpoch h.epoch = link.resync h.epoch := by
    rw [trackEpoch, if_neg linked, if_pos changed]
  have again : (link.resync h.epoch).trackEpoch h.epoch = link.resync h.epoch :=
    trackEpoch_known (Or.inr rfl)
  have filters : (link.resync h.epoch).filters h = link.filters h := rfl
  simp only [onRx, parsed, tracked, again, filters]
  split
  · exact Or.inl rfl
  · exact Or.inr rfl

end Link

end LoraSerial.LinkLayer
