import LoraSerial.LinkLayer.Codec
import LoraSerial.LinkLayer.SendOrder

/-!
Owns one transmit turn: `BeginTurn`, then `NextTx` at one clock value until it has
nothing to send, with a host write after each frame, as the turn loops do. Proves when
F_MORE marks exactly the end of the burst. Writes are the idle hook's; several writes
in one gap queue what their concatenation queues.
-/

namespace LoraSerial.LinkLayer

open Library

/-- One frame of a turn, the state once it is encoded, and what the host then writes. -/
structure Emission (RING : Nat) where
  frame : Bytes
  link : Link RING
  written : Bytes

namespace Link

variable {RING : Nat}

/-- `while (NextTx(..)) Tx(..)`; `hook index` is written after frame `index`. -/
def turnLoop (heatshrink : Heatshrink) (cap : Nat) (now : UInt32) (hook : Nat → Bytes) :
    Nat → Nat → Link RING → Option (List (Emission RING))
  | 0, _, _ => none
  | fuel + 1, index, link =>
      let sent := link.nextTx heatshrink cap now
      match sent.frame with
      | none => some []
      | some frame =>
          (turnLoop heatshrink cap now hook fuel (index + 1) (sent.link.write (hook index)).2).map
            ({ frame := frame, link := sent.link, written := hook index } :: ·)

/-- Every data frame marks one of at most 16 window frames, a lone ack goes out once. -/
def turn (heatshrink : Heatshrink) (link : Link RING) (cap : Nat) (now : UInt32)
    (hook : Nat → Bytes) : Option (List (Emission RING)) :=
  turnLoop heatshrink cap now hook (maxWin + 2) 0 link.beginTurn

/-- `OnRx` on one frame after the other. -/
def hear (heatshrink : Heatshrink) : Link RING → List Bytes → List (RxResult RING)
  | _, [] => []
  | link, frame :: rest =>
      link.onRx heatshrink frame :: hear heatshrink (link.onRx heatshrink frame).link rest

end Link

/-! ### What F_MORE should say -/

def moreFlag (frame : Bytes) : Bool :=
  match parseHeader frame with
  | some (h, _) => hasFlag h.flags fMore
  | none => false

/-- F_MORE is set exactly on the frames that another one follows. -/
def BurstMarked (frames : List Bytes) : Prop :=
  ∀ index frame, frames[index]? = some frame →
    (moreFlag frame = true ↔ index + 1 < frames.length)

/-- Of the frames it accepts, the peer sees the burst end at the last one only. -/
def EndsAtLast {RING : Nat} (heatshrink : Heatshrink) (peer : Link RING)
    (frames : List Bytes) : Prop :=
  ∀ index result, (peer.hear heatshrink frames)[index]? = some result →
    (result.burstEnd = true ↔ result.exit = .accepted ∧ index + 1 = frames.length)

/-! ### What the code looks at -/

/-- Unacked and never sent: what `MoreToSend` counts. -/
def fresh (f : Frame) : Bool :=
  !f.acked && !f.txThisTurn && !f.everSent

namespace Link

variable {RING : Nat}

/-- A never-sent frame is in the window or will be cut off the send ring next. -/
def freshWaits (link : Link RING) : Bool :=
  link.win.any fresh || link.canFrame

/-- How many sent frames are timed out or flagged for a fast resend. -/
def dueCount (link : Link RING) (now : UInt32) : Nat :=
  link.win.countP fun f => f.everSent && link.sendable now f

/-- `NextTx` owes a lone ack. -/
def ackOwed (link : Link RING) : Bool :=
  link.ackPending && !link.ackSentTurn

end Link

/-- The host writes while no never-sent frame waits, and its bytes still fit in the
window. -/
def Emission.late {RING : Nat} (emission : Emission RING) : Bool :=
  !emission.link.win.any fresh && (emission.link.write emission.written).2.canFrame

/-! ### Receiving end -/

theorem BurstMarked.cons_iff (frame : Bytes) (rest : List Bytes) :
    BurstMarked (frame :: rest) ↔ (moreFlag frame = true ↔ rest ≠ []) ∧ BurstMarked rest := by
  constructor
  · intro marked
    refine ⟨?_, ?_⟩
    · rw [marked 0 frame rfl, List.length_cons, ← List.length_pos_iff]
      omega
    · intro index later found
      rw [marked (index + 1) later found, List.length_cons]
      omega
  · rintro ⟨first, marked⟩ index later found
    cases index with
    | zero =>
        cases found
        rw [first, List.length_cons, ← List.length_pos_iff]
        omega
    | succ index =>
        rw [marked index later found, List.length_cons]
        omega

namespace Link

variable {RING : Nat}

/-- `OnRx` returns true exactly for an accepted frame without F_MORE. -/
theorem burstEnd_iff (heatshrink : Heatshrink) (link : Link RING) (frame : Bytes) :
    (link.onRx heatshrink frame).burstEnd = true ↔
      (link.onRx heatshrink frame).exit = .accepted ∧ moreFlag frame = false := by
  cases parsed : parseHeader frame with
  | none => simp [onRx, parsed]
  | some pair =>
      obtain ⟨h, body⟩ := pair
      simp only [onRx, parsed, moreFlag]
      split
      · simp
      · split
        next exit refused =>
          have other : exit ≠ .accepted := by
            rintro rfl
            exact authenticate_ne_accepted heatshrink _ frame h body refused
          simp [other]
        next => simp

/-- F_MORE on exactly the frames before the last tells an accepting peer where the
burst ends. -/
theorem endsAtLast_of_marked (heatshrink : Heatshrink) (peer : Link RING) {frames : List Bytes}
    (marked : BurstMarked frames) : EndsAtLast heatshrink peer frames := by
  induction frames generalizing peer with
  | nil =>
      intro index result found
      simp [hear] at found
  | cons frame rest inductionHypothesis =>
      obtain ⟨first, later⟩ := (BurstMarked.cons_iff frame rest).mp marked
      intro index result found
      cases index with
      | zero =>
          cases found
          rw [burstEnd_iff]
          refine and_congr_right fun _ => ?_
          rw [← Bool.not_eq_true, first]
          cases rest <;> simp
      | succ index =>
          have inner := inductionHypothesis (peer.onRx heatshrink frame).link later index result found
          rw [inner, List.length_cons, Nat.succ_inj]

/-! ### Encoding never fails in a turn -/

/-- A window frame always fits into a buffer of `maxFrame` bytes, and its F_MORE is the
caller's. -/
theorem encode_fits (heatshrink : Heatshrink) (link : Link RING) {cap : Nat}
    (fits : maxFrame ≤ cap) (shortTag : link.cfg.tagLen.toNat ≤ tagMax) (flags seq : UInt8)
    {raw : Bytes} (short : raw.length ≤ maxPay) :
    ∃ frame, (link.encode heatshrink cap flags seq raw).frame = some frame ∧
      moreFlag frame = hasFlag flags fMore := by
  have packed := (link.length_packPayload_le heatshrink flags raw).trans short
  have room : ∃ frame, (link.encode heatshrink cap flags seq raw).frame = some frame := by
    unfold maxFrame at fits
    unfold encode
    dsimp only
    split
    · rw [if_neg (by omega)]
      exact ⟨_, rfl⟩
    · rw [if_neg (by omega)]
      exact ⟨_, rfl⟩
  obtain ⟨frame, encoded⟩ := room
  obtain ⟨body, parsed⟩ := parseHeader_encode encoded
  refine ⟨frame, encoded, ?_⟩
  simp only [moreFlag, parsed]
  rw [hasFlag_wireHeader _ _ _ _ _ (by decide), hasFlag_packPayload _ _ _ _ (by decide),
    show hasFlag fEnc fMore = false by decide, Bool.and_false, Bool.or_false]

/-- `MoreToSend` skips the frame just sent, which no longer counts anyway. -/
theorem moreToSend_eq {link : Link RING} {before after : List Frame} {f : Frame}
    (split : link.win = before ++ f :: after) (sent : fresh f = false) :
    link.moreToSend before.length = link.win.any fresh := by
  have here : link.win[before.length]? = some f := by
    rw [split, List.getElem?_append_right (Nat.le_refl _), Nat.sub_self, List.getElem?_cons_zero]
  rw [Bool.eq_iff_iff, moreToSend, List.any_eq_true, List.any_eq_true]
  constructor
  · rintro ⟨⟨g, index⟩, member, waits⟩
    simp only [ne_eq, Bool.and_eq_true] at waits
    refine ⟨g, List.mem_of_getElem? (List.mk_mem_zipIdx_iff_getElem?.mp member), ?_⟩
    simp only [fresh, Bool.and_eq_true]
    exact waits.2
  · rintro ⟨g, member, waits⟩
    obtain ⟨index, found⟩ := List.mem_iff_getElem?.mp member
    refine ⟨(g, index), List.mk_mem_zipIdx_iff_getElem?.mpr found, ?_⟩
    have other : index ≠ before.length := by
      rintro rfl
      rw [here] at found
      cases found
      rw [sent] at waits
      cases waits
    simp only [fresh, Bool.and_eq_true] at waits
    simpa [other] using waits

end Link

/-! ### One step of the turn -/

/-- What holds before every `NextTx` of a turn. -/
structure TurnReady {RING : Nat} (link : Link RING) : Prop where
  valid : link.Valid
  sent : SentInOrder link.win
  shortTag : link.cfg.tagLen.toNat ≤ tagMax

namespace TurnReady

variable {RING : Nat} {link : Link RING}

theorem write (ready : TurnReady link) (d : Bytes) : TurnReady (link.write d).2 := by
  have valid := ready.valid.write d
  obtain ⟨ring, written⟩ := link.write_link d
  rw [written] at valid ⊢
  exact ⟨valid, ready.sent, ready.shortTag⟩

theorem beginTurn (ready : TurnReady link) : TurnReady link.beginTurn :=
  ⟨ready.valid.beginTurn, ready.sent.beginTurn, ready.shortTag⟩

theorem nextTx (ready : TurnReady link) (heatshrink : Heatshrink) (cap : Nat) (now : UInt32) :
    TurnReady (link.nextTx heatshrink cap now).link := by
  have valid := ready.valid.nextTx heatshrink cap now
  have sent := ready.sent.nextTx heatshrink cap now
  obtain ⟨_, _, _, _, _, _, _, _, _, result⟩ := link.nextTx_link heatshrink cap now
  rw [result] at valid sent ⊢
  exact ⟨valid, sent, ready.shortTag⟩

end TurnReady

namespace Link

variable {RING : Nat} {link : Link RING}

theorem fresh_sendable (now : UInt32) {f : Frame} (idle : link.sendable now f = false) :
    fresh f = false := by
  simp only [sendable, fresh] at idle ⊢
  grind

/-- A fresh frame is in the filled window exactly when one waits. -/
theorem any_fresh_fillWindow (link : Link RING) :
    link.fillWindow.win.any fresh = link.freshWaits := by
  rcases link.fillWindow_appends with ⟨idle, same⟩ | ⟨framed, added, nonempty, appended, marks⟩
  · rw [same, freshWaits, idle, Bool.or_false]
  · obtain ⟨first, rest, rfl⟩ := List.exists_cons_of_ne_nil nonempty
    have waits : fresh first = true := by simp [fresh, marks first List.mem_cons_self]
    rw [appended, freshWaits, framed]
    simp [waits]

theorem cfg_fillWindow (link : Link RING) : link.fillWindow.cfg = link.cfg := by
  obtain ⟨ring, win, next, filled⟩ := link.fillWindow_link
  rw [filled]

/-- Filling changes no count of frames that were sent before. -/
theorem countP_fillWindow (link : Link RING) (marked : Frame → Bool)
    (skips : ∀ f, f.acked = false ∧ f.everSent = false ∧ f.txThisTurn = false →
      marked f = false) :
    link.fillWindow.win.countP marked = link.win.countP marked := by
  rcases link.fillWindow_appends with ⟨-, same⟩ | ⟨-, added, -, appended, marks⟩
  · rw [same]
  · rw [appended, List.countP_append, Nat.add_eq_left, List.countP_eq_zero]
    intro f member
    rw [skips f (marks f member)]
    simp

theorem dueCount_fillWindow (link : Link RING) (now : UInt32) :
    link.fillWindow.dueCount now = link.dueCount now := by
  have sameTest : link.fillWindow.sendable now = link.sendable now := by
    funext f
    rw [sendable, sendable, cfg_fillWindow]
  rw [dueCount, sameTest]
  refine link.countP_fillWindow _ fun f marks => ?_
  rw [marks.2.1, Bool.false_and]

/-- Calls left in the turn: window frames not yet sent in it, and the lone ack. -/
def turnRank (link : Link RING) : Nat :=
  maxWin - link.win.countP Frame.txThisTurn + link.ackOwed.toNat

/-- What one frame of a turn leaves behind. -/
structure Sends (link : Link RING) (now : UInt32) (frame : Bytes) (after : Link RING) : Prop where
  cause : link.freshWaits = true ∨ 0 < link.dueCount now ∨ link.ackOwed = true
  flagged : moreFlag frame = after.win.any fresh
  quiet : after.ackOwed = false
  filled : after.canFrame = false
  ends : link.freshWaits = true ∨ link.dueCount now ≤ 1 →
    after.win.any fresh = true ∨ after.dueCount now = 0
  misleads : link.freshWaits = false → 2 ≤ link.dueCount now →
    after.win.any fresh = false ∧ 0 < after.dueCount now
  rank : after.turnRank < link.turnRank

/-- Frames that may not be sent are neither fresh nor due. -/
theorem idle_frames {link : Link RING} {now : UInt32} {frames : List Frame}
    (idle : ∀ g ∈ frames, link.sendable now g = false) :
    frames.any fresh = false ∧
      frames.countP (fun g => g.everSent && link.sendable now g) = 0 := by
  constructor
  · rw [List.any_eq_false]
    intro g member
    simp [fresh_sendable now (idle g member)]
  · rw [List.countP_eq_zero]
    intro g member
    simp [idle g member]

section FirstSendable

variable {after : Link RING} {now : UInt32} {before rest : List Frame} {f : Frame}

theorem waiting_of_sendable {link : Link RING} (picked : link.sendable now f = true) :
    f.acked = false ∧ f.txThisTurn = false := by
  simp only [sendable] at picked
  grind

/-- What the window holds before the first sendable frame goes out. -/
theorem counts_split (split : link.fillWindow.win = before ++ f :: rest)
    (picked : link.fillWindow.sendable now f = true)
    (skipped : ∀ g ∈ before, link.fillWindow.sendable now g = false) :
    link.freshWaits = (fresh f || rest.any fresh) ∧
      link.dueCount now =
        rest.countP (fun g => g.everSent && link.fillWindow.sendable now g) +
          f.everSent.toNat := by
  obtain ⟨frontFresh, frontDue⟩ := idle_frames skipped
  constructor
  · rw [← any_fresh_fillWindow, split, List.any_append, List.any_cons, frontFresh, Bool.false_or]
  · rw [← dueCount_fillWindow, dueCount, split, List.countP_append, frontDue, List.countP_cons,
      picked]
    cases f.everSent <;> simp

/-- And after. -/
theorem counts_sent (skipped : ∀ g ∈ before, link.fillWindow.sendable now g = false)
    (sentWin : after.win = before ++ stampSent now f :: rest)
    (sameCfg : after.cfg = link.fillWindow.cfg) :
    after.win.any fresh = rest.any fresh ∧
      after.dueCount now =
        rest.countP (fun g => g.everSent && link.fillWindow.sendable now g) := by
  obtain ⟨frontFresh, frontDue⟩ := idle_frames skipped
  have sameTest : after.sendable now = link.fillWindow.sendable now := by
    funext g
    rw [sendable, sendable, sameCfg]
  constructor
  · have stamped : fresh (stampSent now f) = false := by simp [fresh, stampSent]
    rw [sentWin, List.any_append, List.any_cons, frontFresh, stamped, Bool.false_or, Bool.false_or]
  · have stamped : link.fillWindow.sendable now (stampSent now f) = false := by
      simp [sendable, stampSent]
    rw [dueCount, sentWin, sameTest, List.countP_append, frontDue, List.countP_cons, stamped]
    simp

/-- A never-sent frame is picked only when no sent frame is due any more, because the
window goes out in order. -/
theorem none_due_behind (ready : TurnReady link.fillWindow)
    (split : link.fillWindow.win = before ++ f :: rest)
    (picked : link.fillWindow.sendable now f = true) (never : f.everSent = false) :
    rest.countP (fun g => g.everSent && link.fillWindow.sendable now g) = 0 := by
  rw [List.countP_eq_zero]
  intro g member due
  have order := ready.sent.order
  rw [split, List.pairwise_append, List.pairwise_cons] at order
  simp only [Bool.and_eq_true, sendable] at due
  have earlier := order.2.1.1 g member (waiting_of_sendable picked).1 (by grind) due.1
  rw [never] at earlier
  cases earlier

theorem turnRank_sent (ready : TurnReady link.fillWindow)
    (split : link.fillWindow.win = before ++ f :: rest)
    (picked : link.fillWindow.sendable now f = true)
    (sentWin : after.win = before ++ stampSent now f :: rest) (noLone : after.ackOwed = false) :
    after.turnRank < link.turnRank := by
  have turnBefore : link.win.countP Frame.txThisTurn =
      before.countP Frame.txThisTurn + rest.countP Frame.txThisTurn := by
    rw [← link.countP_fillWindow _ fun f marks => marks.2.2, split, List.countP_append,
      List.countP_cons, (waiting_of_sendable picked).2]
    simp
  have turnAfter : after.win.countP Frame.txThisTurn =
      before.countP Frame.txThisTurn + rest.countP Frame.txThisTurn + 1 := by
    rw [sentWin, List.countP_append, List.countP_cons]
    simp [stampSent]
    omega
  have inside : after.win.countP Frame.txThisTurn ≤ maxWin := by
    refine List.countP_le_length.trans ?_
    rw [sentWin]
    have bound := ready.valid.send.inflight_le
    rw [split] at bound
    simpa using bound
  rw [turnRank, turnRank, turnBefore, noLone]
  rw [turnAfter] at inside ⊢
  simp only [Bool.toNat_false]
  omega

/-- Sending the first sendable frame. -/
theorem sends_frame {frame : Bytes} (ready : TurnReady link.fillWindow)
    (split : link.fillWindow.win = before ++ f :: rest)
    (picked : link.fillWindow.sendable now f = true)
    (skipped : ∀ g ∈ before, link.fillWindow.sendable now g = false)
    (sentWin : after.win = before ++ stampSent now f :: rest)
    (sameCfg : after.cfg = link.fillWindow.cfg) (sameRing : after.sRing = link.fillWindow.sRing)
    (noAck : after.ackPending = false)
    (flagged : moreFlag frame = after.win.any fresh) : link.Sends now frame after := by
  obtain ⟨freshBefore, dueBefore⟩ := counts_split split picked skipped
  obtain ⟨freshAfter, dueAfter⟩ := counts_sent skipped sentWin sameCfg
  have noLone : after.ackOwed = false := by rw [ackOwed, noAck, Bool.false_and]
  constructor
  · rw [freshBefore, dueBefore]
    cases ever : f.everSent with
    | true => exact Or.inr (Or.inl (Nat.succ_pos _))
    | false => exact Or.inl (by simp [fresh, waiting_of_sendable picked, ever])
  · exact flagged
  · exact noLone
  · have same := link.canFrame_fillWindow
    rw [canFrame, split] at same
    rw [canFrame, sentWin, sameCfg, sameRing]
    simpa using same
  · intro early
    rw [freshAfter, dueAfter]
    rw [freshBefore, dueBefore] at early
    cases ever : f.everSent with
    | false => exact Or.inr (none_due_behind ready split picked ever)
    | true =>
        have old : fresh f = false := by simp [fresh, ever]
        rw [ever, old, Bool.false_or] at early
        refine early.imp id ?_
        simp
  · intro noFresh several
    rw [freshAfter, dueAfter]
    rw [freshBefore, Bool.or_eq_false_iff] at noFresh
    rw [dueBefore] at several
    have bound := f.everSent.toNat_le
    exact ⟨noFresh.2, by omega⟩
  · exact turnRank_sent ready split picked sentWin noLone

end FirstSendable

end Link

theorem TurnReady.fillWindow {RING : Nat} {link : Link RING} (ready : TurnReady link) :
    TurnReady link.fillWindow :=
  ⟨ready.valid.fillWindow, ready.sent.fillWindow, by
    rw [Link.cfg_fillWindow]
    exact ready.shortTag⟩

namespace Link

variable {RING : Nat}

theorem idle_turn {link : Link RING} {now : UInt32}
    (idle : ∀ g ∈ link.fillWindow.win, link.fillWindow.sendable now g = false) :
    link.freshWaits = false ∧ link.dueCount now = 0 := by
  obtain ⟨noFresh, noDue⟩ := idle_frames idle
  exact ⟨(any_fresh_fillWindow link).symm.trans noFresh,
    (dueCount_fillWindow link now).symm.trans noDue⟩

theorem ackOwed_fillWindow (link : Link RING) : link.fillWindow.ackOwed = link.ackOwed := by
  obtain ⟨ring, win, next, filled⟩ := link.fillWindow_link
  rw [filled]
  rfl

/-- A lone ack goes out when the window has nothing to send. -/
theorem sends_ack {link : Link RING} {now : UInt32} {frame : Bytes}
    {after : Link RING}
    (idle : ∀ g ∈ link.fillWindow.win, link.fillWindow.sendable now g = false)
    (owed : link.fillWindow.ackPending = true ∧ link.fillWindow.ackSentTurn = false)
    (same : ∃ ctr persist, after = { link.fillWindow with
      ackSentTurn := true, ackPending := false, txCtr64 := ctr, lastPersist := persist })
    (flagged : moreFlag frame = false) : link.Sends now frame after := by
  obtain ⟨ctr, persist, rfl⟩ := same
  obtain ⟨noFresh, noDue⟩ := idle_turn idle
  have lone : link.ackOwed = true := by
    rw [← ackOwed_fillWindow, ackOwed, owed.1, owed.2]
    rfl
  have noFresh' : link.fillWindow.win.any fresh = false := by rw [any_fresh_fillWindow, noFresh]
  constructor
  · exact Or.inr (Or.inr lone)
  · rw [flagged, noFresh']
  · rfl
  · exact link.canFrame_fillWindow
  · intro _
    exact Or.inr ((dueCount_fillWindow link now).trans noDue)
  · intro _ several
    omega
  · have sameTurn := link.countP_fillWindow Frame.txThisTurn fun f marks => marks.2.2
    rw [turnRank, turnRank, lone, sameTurn]
    simp [ackOwed]

end Link

/-- Sending a window frame succeeds, and F_MORE counts the never-sent frames left. -/
theorem TurnReady.sendFrame {RING : Nat} {link : Link RING} (ready : TurnReady link)
    (heatshrink : Heatshrink) {cap : Nat} (fits : maxFrame ≤ cap) (now : UInt32)
    {before rest : List Frame} {f : Frame} (split : link.win = before ++ f :: rest) :
    ∃ frame, (link.sendFrame heatshrink cap now f before.length).frame = some frame ∧
      moreFlag frame =
        (link.sendFrame heatshrink cap now f before.length).link.win.any fresh ∧
      (link.sendFrame heatshrink cap now f before.length).link.cfg = link.cfg ∧
      (link.sendFrame heatshrink cap now f before.length).link.sRing = link.sRing := by
  have short := (ready.valid.send.payload f (by simp [split])).2
  have stampedWin : (link.markSent now f before.length).win =
      before ++ Link.stampSent now f :: rest := by
    simp only [Link.markSent, split, Link.modify_split]
  have more := Link.moreToSend_eq stampedWin (by simp [fresh, Link.stampSent])
  have encodes : ∀ flags, ∃ frame,
      ((link.markSent now f before.length).encode heatshrink cap flags f.seq f.raw).frame =
        some frame ∧ moreFlag frame = hasFlag flags fMore ∧
      ((link.markSent now f before.length).encode heatshrink cap flags f.seq f.raw).link.cfg =
        link.cfg ∧
      ((link.markSent now f before.length).encode heatshrink cap flags f.seq f.raw).link.sRing =
        link.sRing := by
    intro flags
    obtain ⟨frame, encoded, flag⟩ := (link.markSent now f before.length).encode_fits heatshrink
      fits ready.shortTag flags f.seq short
    obtain ⟨ctr, persist, sealed⟩ := (link.markSent now f before.length).encode_link heatshrink
      cap flags f.seq f.raw
    exact ⟨frame, encoded, flag, by rw [sealed]; rfl, by rw [sealed]; rfl⟩
  obtain ⟨frame, encoded, flag, sameCfg, sameRing⟩ := encodes
    (if (link.markSent now f before.length).moreToSend before.length then fData ||| fMore
      else fData)
  refine ⟨frame, encoded, ?_, sameCfg, sameRing⟩
  rw [flag, Link.win_sendFrame heatshrink cap now split, more, stampedWin]
  cases (before ++ Link.stampSent now f :: rest).any fresh <;> decide

namespace Link

variable {RING : Nat}

/-- One `NextTx` of a turn. -/
theorem nextTx_sends {link : Link RING} (ready : TurnReady link) (heatshrink : Heatshrink)
    {cap : Nat} (fits : maxFrame ≤ cap) (now : UInt32) :
    ((link.nextTx heatshrink cap now).frame = none ∧ link.freshWaits = false ∧
        link.dueCount now = 0) ∨
      ∃ frame, (link.nextTx heatshrink cap now).frame = some frame ∧
        link.Sends now frame (link.nextTx heatshrink cap now).link := by
  have filled := ready.fillWindow
  rcases link.nextTx_cases heatshrink cap now with
    ⟨before, f, rest, split, picked, skipped, result⟩ | ⟨idle, owed, result⟩ | ⟨idle, -, result⟩
  · obtain ⟨frame, sent, flagged, sameCfg, sameRing⟩ :=
      filled.sendFrame heatshrink fits now split
    have sentWin := win_sendFrame heatshrink cap now split
    refine Or.inr ⟨frame, by rw [result, sent], ?_⟩
    rw [result]
    exact sends_frame filled split picked skipped sentWin sameCfg sameRing rfl flagged
  · obtain ⟨frame, encoded, flag⟩ := encode_fits heatshrink
      { link.fillWindow with ackSentTurn := true, ackPending := false } fits
      filled.shortTag 0 0 (show ([] : Bytes).length ≤ maxPay from Nat.zero_le _)
    obtain ⟨ctr, persist, sealed⟩ := encode_link heatshrink
      { link.fillWindow with ackSentTurn := true, ackPending := false } cap 0 0 []
    refine Or.inr ⟨frame, by rw [result]; exact encoded, ?_⟩
    rw [result]
    exact sends_ack idle owed ⟨ctr, persist, sealed⟩ (flag.trans (by decide))
  · exact Or.inl ⟨by rw [result], idle_turn idle⟩

/-! ### The whole turn -/

theorem dueCount_write (link : Link RING) (d : Bytes) (now : UInt32) :
    (link.write d).2.dueCount now = link.dueCount now := by
  obtain ⟨ring, written⟩ := link.write_link d
  rw [written]
  rfl

theorem turnRank_write (link : Link RING) (d : Bytes) :
    (link.write d).2.turnRank = link.turnRank := by
  obtain ⟨ring, written⟩ := link.write_link d
  rw [written]
  rfl

theorem ackOwed_write (link : Link RING) (d : Bytes) :
    (link.write d).2.ackOwed = link.ackOwed := by
  obtain ⟨ring, written⟩ := link.write_link d
  rw [written]
  rfl

theorem freshWaits_write (link : Link RING) (d : Bytes) :
    (link.write d).2.freshWaits = (link.win.any fresh || (link.write d).2.canFrame) := by
  obtain ⟨ring, written⟩ := link.write_link d
  rw [written]
  rfl

/-- The turn ends, is empty exactly when nothing is to be sent, and is marked exactly
when it starts with a fresh frame waiting or at most one resend due and no write comes
too late. -/
theorem turnLoop_marked (heatshrink : Heatshrink) {cap : Nat} (fits : maxFrame ≤ cap)
    (now : UInt32) (hook : Nat → Bytes) {fuel : Nat} (index : Nat) {link : Link RING}
    (ready : TurnReady link) (enough : link.turnRank < fuel) :
    ∃ burst, turnLoop heatshrink cap now hook fuel index link = some burst ∧
      (link.ackOwed = false → (burst ≠ [] ↔ link.freshWaits = true ∨ 0 < link.dueCount now)) ∧
      (BurstMarked (burst.map Emission.frame) ↔
        (link.freshWaits = true ∨ link.dueCount now ≤ 1) ∧
          ∀ emission ∈ burst, emission.late = false) := by
  induction fuel generalizing index link with
  | zero => exact absurd enough (Nat.not_lt_zero _)
  | succ fuel inductionHypothesis =>
      simp only [turnLoop]
      rcases link.nextTx_sends ready heatshrink fits now with
        ⟨stopped, noFresh, noDue⟩ | ⟨frame, produced, sends⟩
      · rw [stopped]
        refine ⟨[], rfl, ?_, ?_⟩
        · intro _
          simp [noFresh, noDue]
        · simp [noDue, BurstMarked]
      · rw [produced]
        have rank := sends.rank
        obtain ⟨rest, ended, nonempty, marked⟩ := inductionHypothesis (index + 1)
          ((ready.nextTx heatshrink cap now).write (hook index))
          (by rw [turnRank_write]; omega)
        rw [ackOwed_write, freshWaits_write, dueCount_write] at nonempty
        rw [freshWaits_write, dueCount_write] at marked
        have follows := nonempty sends.quiet
        simp only [ended, Option.map_some]
        refine ⟨_, rfl, ?_, ?_⟩
        · intro quiet
          have cause := sends.cause
          rw [quiet] at cause
          simpa using cause
        · rw [List.map_cons, BurstMarked.cons_iff, sends.flagged, List.forall_mem_cons]
          have firstLate : Emission.late
              { frame := frame, link := (link.nextTx heatshrink cap now).link
                written := hook index } =
              (!(link.nextTx heatshrink cap now).link.win.any fresh &&
                ((link.nextTx heatshrink cap now).link.write (hook index)).2.canFrame) := rfl
          rw [firstLate, ne_eq, List.map_eq_nil_iff, ← ne_eq, follows, marked]
          have ends := sends.ends
          have misleads := sends.misleads
          by_cases early : link.freshWaits = true ∨ link.dueCount now ≤ 1
          · -- A fresh frame is left, or nothing is due: only a late write can mislead.
            have left := ends early
            simp only [early, true_and]
            cases after : (link.nextTx heatshrink cap now).link.win.any fresh with
            | true => simp
            | false =>
                have noDue := left.resolve_left (by rw [after]; decide)
                simp [noDue]
          · -- Another due frame follows a frame without F_MORE.
            have wrong := misleads (by simpa using fun waits => early (Or.inl waits)) (by omega)
            simp [early, wrong]

end Link

/-- F_MORE tells a burst's end: to a reader of the frames and to any peer. -/
def MarksEnd (heatshrink : Heatshrink) (frames : List Bytes) : Prop :=
  BurstMarked frames ∧
    ∀ (P : Nat) (peer : Link P), EndsAtLast heatshrink peer frames

namespace Link

variable {RING : Nat}

theorem clampConfig_tagLen_le (c : Config) : (clampConfig c).tagLen.toNat ≤ tagMax := by
  simp only [clampConfig]
  split
  · decide
  next inside =>
    simp only [not_or, UInt8.not_lt] at inside
    exact inside.2

/-- Only `Init` sets the tag length, and it clamps it. -/
theorem tagLen_apply (heatshrink : Heatshrink) {link : Link RING}
    (short : link.cfg.tagLen.toNat ≤ tagMax) (op : Op) :
    (link.apply heatshrink op).cfg.tagLen.toNat ≤ tagMax := by
  cases op with
  | init c => exact clampConfig_tagLen_le c
  | write d =>
      obtain ⟨_, written⟩ := link.write_link d
      simpa only [apply, written] using short
  | read max =>
      obtain ⟨_, _, _, _, _, taken⟩ := link.read_link max
      simpa only [apply, taken] using short
  | nextTx cap now =>
      obtain ⟨_, _, _, _, _, _, _, _, _, sent⟩ := link.nextTx_link heatshrink cap now
      simpa only [apply, sent] using short
  | makePoll cap =>
      obtain ⟨_, _, encoded⟩ := link.encode_link heatshrink cap 0 0 []
      simpa only [apply, makePoll, encoded] using short
  | onRx input =>
      obtain ⟨_, _, _, _, _, _, _, _, _, _, _, _, _, _, _, _, _, heard⟩ :=
        link.onRx_link heatshrink input
      rw [apply, heard]
      exact short
  | newSession | setTiming | takeGotData | takePeerReset | takeValidRx | setCtrlTx | setAuxTx
  | beginTurn => exact short

theorem turnReady_apply {link : Link RING} (ready : TurnReady link) (heatshrink : Heatshrink)
    (op : Op) : TurnReady (link.apply heatshrink op) where
  valid := ready.valid.apply heatshrink op
  sent := ready.sent.apply heatshrink op
  shortTag := tagLen_apply heatshrink ready.shortTag op

/-- After `Init` the tag length stays within the Ascon tag. -/
theorem tagLen_run_init_le (heatshrink : Heatshrink) (memory : Link RING) (c : Config)
    (ops : List Op) : ((memory.init c).run heatshrink ops).cfg.tagLen.toNat ≤ tagMax := by
  suffices kept : ∀ link : Link RING, link.cfg.tagLen.toNat ≤ tagMax →
      (link.run heatshrink ops).cfg.tagLen.toNat ≤ tagMax from
    kept _ (clampConfig_tagLen_le c)
  induction ops with
  | nil => exact fun _ short => short
  | cons op rest inductionHypothesis =>
      intro link short
      exact inductionHypothesis _ (tagLen_apply heatshrink short op)

theorem turnReady_run_init (positive : 0 < RING) (heatshrink : Heatshrink) (memory : Link RING)
    (c : Config) (ops : List Op) : TurnReady ((memory.init c).run heatshrink ops) where
  valid := valid_run_init positive heatshrink memory c ops
  sent := SentInOrder.run_init heatshrink memory c ops
  shortTag := tagLen_run_init_le heatshrink memory c ops

theorem turnRank_beginTurn_lt (link : Link RING) : link.beginTurn.turnRank < maxWin + 2 := by
  have bound := link.beginTurn.ackOwed.toNat_le
  rw [turnRank]
  omega

/-- In every reachable state a turn ends, and F_MORE marks exactly its last frame if and
only if a never-sent frame waits at its start or at most one resend is due, and no host
write is framed after the last never-sent frame went out. -/
theorem turn_marksEnd_iff (positive : 0 < RING) (heatshrink : Heatshrink) (memory : Link RING)
    (c : Config) (ops : List Op) {cap : Nat} (fits : maxFrame ≤ cap) (now : UInt32)
    (hook : Nat → Bytes) :
    ∃ burst, ((memory.init c).run heatshrink ops).turn heatshrink cap now hook = some burst ∧
      (MarksEnd heatshrink (burst.map Emission.frame) ↔
        (((memory.init c).run heatshrink ops).beginTurn.freshWaits = true ∨
            ((memory.init c).run heatshrink ops).beginTurn.dueCount now ≤ 1) ∧
          ∀ emission ∈ burst, emission.late = false) := by
  obtain ⟨burst, ended, -, marked⟩ := turnLoop_marked heatshrink fits now hook 0
    (turnReady_run_init positive heatshrink memory c ops).beginTurn
    (turnRank_beginTurn_lt _)
  refine ⟨burst, ended, ?_⟩
  rw [← marked]
  exact ⟨And.left, fun flags => ⟨flags, fun _ peer => peer.endsAtLast_of_marked heatshrink flags⟩⟩

/-- Two one-byte frames, each sent once at time 0. -/
def twoSent : List Op :=
  [.write [1], .nextTx maxFrame 0, .write [2], .nextTx maxFrame 0]

theorem turn_marksEnd_iff_twoSent :
    ∃ burst, (((zeroed .default : Link 4).init .default).run .copying twoSent).turn
        .copying maxFrame 2000 (fun _ => []) = some burst ∧
      (MarksEnd .copying (burst.map Emission.frame) ↔
        ((((zeroed .default : Link 4).init .default).run .copying
              twoSent).beginTurn.freshWaits = true ∨
            (((zeroed .default : Link 4).init .default).run .copying
              twoSent).beginTurn.dueCount 2000 ≤ 1) ∧
          ∀ emission ∈ burst, emission.late = false) :=
  turn_marksEnd_iff (by decide) .copying _ .default twoSent (Nat.le_refl _) 2000 _

/-- Both time out: the burst has two frames and neither carries F_MORE. -/
theorem resends_unmarked :
    ∃ burst, (((zeroed .default : Link 4).init .default).run .copying twoSent).turn
        .copying maxFrame 2000 (fun _ => []) = some burst ∧
      ¬MarksEnd .copying (burst.map Emission.frame) := by
  refine ⟨_, rfl, ?_⟩
  intro marks
  exact absurd (marks.1 0 _ rfl) (by decide)

end Link

end LoraSerial.LinkLayer
