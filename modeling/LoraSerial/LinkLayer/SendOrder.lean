import LoraSerial.LinkLayer.Invariant

/-!
Owns the order in which the window is sent: unacked frames go out for the first time
in window order, so that never-sent frames follow the sent ones. The invariant holds
after `Init` on any memory and is preserved by every call.
-/

namespace LoraSerial.LinkLayer

open Library

/-! ### Marks -/

/-- `later` keeps the transmission marks of `earlier` and unacks nothing. -/
def Frame.Keeps (earlier later : Frame) : Prop :=
  later.everSent = earlier.everSent ∧ later.txThisTurn = earlier.txThisTurn ∧
    (earlier.acked = true → later.acked = true)

theorem Frame.Keeps.refl (f : Frame) : f.Keeps f :=
  ⟨rfl, rfl, id⟩

theorem Frame.Keeps.trans {first second third : Frame} (left : first.Keeps second)
    (right : second.Keeps third) : first.Keeps third :=
  ⟨right.1.trans left.1, right.2.1.trans left.2.1, fun acked => right.2.2 (left.2.2 acked)⟩

theorem Frame.keeps_markAcked (f : Frame) : f.Keeps (markAcked f) :=
  ⟨rfl, rfl, fun _ => rfl⟩

/-- The same window with more acks and other resend flags. -/
abbrev KeepsMarks : List Frame → List Frame → Prop :=
  List.Forall₂ Frame.Keeps

namespace KeepsMarks

theorem refl (win : List Frame) : KeepsMarks win win :=
  List.forall₂_same.mpr fun f _ => Frame.Keeps.refl f

theorem trans {first second third : List Frame} (left : KeepsMarks first second)
    (right : KeepsMarks second third) : KeepsMarks first third := by
  induction left generalizing third with
  | nil => exact right
  | cons head _ inductionHypothesis =>
      cases right with
      | cons head' tail' => exact .cons (head.trans head') (inductionHypothesis tail')

end KeepsMarks

theorem keepsMarks_map_markAcked (win : List Frame) : KeepsMarks win (win.map markAcked) := by
  rw [KeepsMarks, List.forall₂_map_right_iff]
  exact List.forall₂_same.mpr fun f _ => f.keeps_markAcked

theorem keepsMarks_markSeq (seq : UInt8) (win : List Frame) :
    KeepsMarks win (markSeq seq win) := by
  induction win with
  | nil => exact .nil
  | cons f rest inductionHypothesis =>
      rw [markSeq]
      split
      · exact .cons f.keeps_markAcked (KeepsMarks.refl rest)
      · exact .cons (.refl f) inductionHypothesis

theorem keepsMarks_markSack (ack : UInt8) (sack : UInt16) (win : List Frame) :
    KeepsMarks win (markSack ack sack win) := by
  rw [markSack]
  induction List.range (maxWin - 1) generalizing win with
  | nil => exact .refl win
  | cons k rest inductionHypothesis =>
      rw [List.foldl_cons]
      refine KeepsMarks.trans ?_ (inductionHypothesis _)
      split
      · exact keepsMarks_markSeq _ win
      · exact .refl win

theorem keepsMarks_flagSkipped (win : List Frame) : KeepsMarks win (flagSkipped win).1 := by
  induction win with
  | nil => exact .nil
  | cons f rest inductionHypothesis =>
      rw [flagSkipped]
      split
      · exact .cons (.refl f) inductionHypothesis
      · split
        · exact .cons ⟨rfl, rfl, id⟩ inductionHypothesis
        · exact .cons (.refl f) inductionHypothesis

theorem keepsMarks_markCumulative {RING : Nat} (link : Link RING) (ack : UInt8) :
    KeepsMarks link.win (link.markCumulative ack).win := by
  unfold Link.markCumulative
  dsimp only
  split
  · have marked : KeepsMarks
        (link.win.take (ack - link.baseSeq).toNat ++ link.win.drop (ack - link.baseSeq).toNat)
        ((link.win.take (ack - link.baseSeq).toNat).map markAcked ++
          link.win.drop (ack - link.baseSeq).toNat) :=
      List.rel_append (keepsMarks_map_markAcked _) (KeepsMarks.refl _)
    rwa [List.take_append_drop] at marked
  · exact .refl link.win

/-! ### Order -/

/-- What was sent this turn was ever sent; of two unacked frames the later one is not
sent first. -/
structure SentInOrder (win : List Frame) : Prop where
  turn : ∀ f ∈ win, f.txThisTurn = true → f.everSent = true
  order : win.Pairwise fun f g =>
    f.acked = false → g.acked = false → g.everSent = true → f.everSent = true

namespace SentInOrder

theorem empty : SentInOrder [] where
  turn := by simp
  order := .nil

theorem sublist {win rest : List Frame} (sent : SentInOrder win) (part : rest.Sublist win) :
    SentInOrder rest where
  turn := fun f member => sent.turn f (part.subset member)
  order := sent.order.sublist part

theorem keeps {win marked : List Frame} (sent : SentInOrder win)
    (kept : KeepsMarks win marked) : SentInOrder marked := by
  induction kept with
  | nil => exact .empty
  | @cons f f' rest rest' head tail inductionHypothesis =>
      have tailSent := inductionHypothesis (sent.sublist (List.sublist_cons_self f rest))
      have unacked : ∀ {old new : Frame}, old.Keeps new → new.acked = false →
          old.acked = false := by
        intro old new keeps waiting
        cases acked : old.acked with
        | false => rfl
        | true => exact absurd (keeps.2.2 acked) (by rw [waiting]; decide)
      constructor
      · intro g member
        rcases List.mem_cons.mp member with rfl | inside
        · rw [head.1, head.2.1]
          exact sent.turn f List.mem_cons_self
        · exact tailSent.turn g inside
      · refine List.pairwise_cons.mpr ⟨?_, tailSent.order⟩
        intro g' inside first second later
        obtain ⟨position, below, rfl⟩ := List.mem_iff_getElem.mp inside
        have below' : position < rest.length := by
          rw [tail.length_eq]
          exact below
        have kept := tail.get below' below
        rw [head.1]
        refine (List.pairwise_cons.mp sent.order).1 _ (List.getElem_mem below')
          (unacked head first) (unacked kept second) ?_
        rw [← later]
        exact kept.1.symm

/-- A never-sent frame extends the window. -/
theorem append {win : List Frame} (sent : SentInOrder win) {f : Frame}
    (fresh : f.everSent = false) (idle : f.txThisTurn = false) : SentInOrder (win ++ [f]) where
  turn := by
    intro g member
    rcases List.mem_append.mp member with old | new
    · exact sent.turn g old
    · rw [List.mem_singleton.mp new, idle]
      simp
  order := by
    refine List.pairwise_append.mpr ⟨sent.order, List.pairwise_singleton _ _, ?_⟩
    intro _ _ g member _ _ later
    rw [List.mem_singleton.mp member, fresh] at later
    cases later

theorem beginTurn {win : List Frame} (sent : SentInOrder win) :
    SentInOrder (win.map fun f => { f with txThisTurn := false }) where
  turn := by
    intro f member later
    obtain ⟨g, -, rfl⟩ := List.mem_map.mp member
    cases later
  order := List.pairwise_map.mpr sent.order

end SentInOrder

namespace Link

variable {RING : Nat}

/-- The picked frame, with the window split around it; nothing before it could be
sent. -/
theorem picked_split {link : Link RING} {now : UInt32} {f : Frame} {pick : Nat}
    (found : link.win.zipIdx.find? (fun entry => link.sendable now entry.1) = some (f, pick)) :
    ∃ before after, link.win = before ++ f :: after ∧ pick = before.length ∧
      link.sendable now f = true ∧ ∀ g ∈ before, link.sendable now g = false := by
  obtain ⟨picked, before, after, split, skipped⟩ := List.find?_eq_some_iff_append.mp found
  have front := congrArg (List.map Prod.fst) split
  have indices := congrArg (List.map Prod.snd) split
  simp only [List.map_append, List.map_cons, List.zipIdx_map_fst] at front
  simp only [List.map_append, List.map_cons, List.zipIdx_map_snd] at indices
  refine ⟨before.map Prod.fst, after.map Prod.fst, front, ?_, by simpa using picked, ?_⟩
  · have position := congrArg (fun list => list[before.length]?) indices
    rw [List.getElem?_append_right (by simp)] at position
    simp only [List.length_map, Nat.sub_self, List.getElem?_cons_zero] at position
    rw [List.length_map]
    grind
  · intro g member
    obtain ⟨entry, inside, rfl⟩ := List.mem_map.mp member
    simpa using skipped entry inside

theorem modify_split (before after : List Frame) (f : Frame) (change : Frame → Frame) :
    (before ++ f :: after).modify before.length change = before ++ change f :: after := by
  induction before with
  | nil => rfl
  | cons first rest inductionHypothesis =>
      simp only [List.cons_append, List.length_cons, List.modify_succ_cons, inductionHypothesis]

/-- `NextTx` fills the window and then sends the first sendable frame, or one lone ack,
or nothing. -/
theorem nextTx_cases (heatshrink : Heatshrink) (link : Link RING) (cap : Nat) (now : UInt32) :
    (∃ before f after, link.fillWindow.win = before ++ f :: after ∧
        link.fillWindow.sendable now f = true ∧
        (∀ g ∈ before, link.fillWindow.sendable now g = false) ∧
        link.nextTx heatshrink cap now =
          link.fillWindow.sendFrame heatshrink cap now f before.length) ∨
      ((∀ g ∈ link.fillWindow.win, link.fillWindow.sendable now g = false) ∧
        (link.fillWindow.ackPending = true ∧ link.fillWindow.ackSentTurn = false) ∧
        link.nextTx heatshrink cap now =
          { link.fillWindow with ackSentTurn := true, ackPending := false }.encode heatshrink cap
            0 0 []) ∨
      ((∀ g ∈ link.fillWindow.win, link.fillWindow.sendable now g = false) ∧
        ¬(link.fillWindow.ackPending = true ∧ link.fillWindow.ackSentTurn = false) ∧
        link.nextTx heatshrink cap now = ⟨link.fillWindow, none, none⟩) := by
  cases found : link.fillWindow.win.zipIdx.find?
      (fun entry => link.fillWindow.sendable now entry.1) with
  | some entry =>
      obtain ⟨f, pick⟩ := entry
      obtain ⟨before, after, split, rfl, picked, skipped⟩ := picked_split found
      refine Or.inl ⟨before, f, after, split, picked, skipped, ?_⟩
      simp only [nextTx, found]
  | none =>
      have idle : ∀ g ∈ link.fillWindow.win, link.fillWindow.sendable now g = false := by
        intro g member
        obtain ⟨index, inside, rfl⟩ := List.mem_iff_getElem.mp member
        have skipped := List.find?_eq_none.mp found (link.fillWindow.win[index], index)
          (List.mk_mem_zipIdx_iff_getElem?.mpr (List.getElem?_eq_getElem inside))
        simpa using skipped
      by_cases owed : link.fillWindow.ackPending = true ∧ link.fillWindow.ackSentTurn = false
      · refine Or.inr (Or.inl ⟨idle, owed, ?_⟩)
        simp only [nextTx, found]
        rw [owed.1, owed.2]
        rfl
      · refine Or.inr (Or.inr ⟨idle, owed, ?_⟩)
        simp only [nextTx, found]
        rw [if_neg (by simp; grind)]

/-- The window after sending the frame between `before` and `after`. -/
theorem win_sendFrame (heatshrink : Heatshrink) {link : Link RING} (cap : Nat) (now : UInt32)
    {before after : List Frame} {f : Frame} (split : link.win = before ++ f :: after) :
    (link.sendFrame heatshrink cap now f before.length).link.win =
      before ++ stampSent now f :: after := by
  simp only [sendFrame]
  obtain ⟨ctr, persist, encoded⟩ := (link.markSent now f before.length).encode_link heatshrink cap
    (if (link.markSent now f before.length).moreToSend before.length then fData ||| fMore
      else fData) f.seq f.raw
  rw [encoded]
  simp only [markSent, split, modify_split]

/-- `filled` is the link with some never-sent frames behind its window. -/
def AppendsFresh (link filled : Link RING) : Prop :=
  ∃ added : List Frame, added ≠ [] ∧ filled.win = link.win ++ added ∧
    ∀ f ∈ added, f.acked = false ∧ f.everSent = false ∧ f.txThisTurn = false

theorem AppendsFresh.frameNext {link filled : Link RING}
    (appends : filled = link ∨ link.AppendsFresh filled) : link.AppendsFresh filled.frameNext := by
  rcases appends with rfl | ⟨added, -, appended, fresh⟩
  · exact ⟨[filled.nextFrame], by simp, rfl, by simp [nextFrame]⟩
  · refine ⟨added ++ [filled.nextFrame], by simp, ?_, ?_⟩
    · rw [← List.append_assoc, ← appended]
      rfl
    · intro f member
      rcases List.mem_append.mp member with old | new
      · exact fresh f old
      · rw [List.mem_singleton.mp new]
        exact ⟨rfl, rfl, rfl⟩

/-- Filling appends never-sent frames exactly when the send ring has bytes and the
window has room. -/
theorem fillWindow_appends (link : Link RING) :
    (link.canFrame = false ∧ link.fillWindow = link) ∨
      (link.canFrame = true ∧ link.AppendsFresh link.fillWindow) := by
  have grows : link.fillWindow = link ∨ link.AppendsFresh link.fillWindow :=
    fillWindow_induction (motive := fun filled => filled = link ∨ link.AppendsFresh filled)
      (fun _ _ appends => Or.inr (AppendsFresh.frameNext appends)) (Or.inl rfl)
  cases ready : link.canFrame with
  | false =>
      refine Or.inl ⟨rfl, ?_⟩
      rw [fillWindow]
      cases link.cfg.window.toNat with
      | zero => rfl
      | succ fuel => rw [fillLoop, ready, if_neg (by decide)]
  | true =>
      refine Or.inr ⟨rfl, grows.resolve_left fun same => ?_⟩
      have stopped := link.canFrame_fillWindow
      rw [same, ready] at stopped
      cases stopped

end Link

namespace SentInOrder

variable {RING : Nat}

theorem fillWindow {link : Link RING} (sent : SentInOrder link.win) :
    SentInOrder link.fillWindow.win :=
  Link.fillWindow_induction (motive := fun filled => SentInOrder filled.win)
    (fun _ _ earlier => earlier.append rfl rfl) sent

/-- Sending the first sendable frame keeps the order: a never-sent frame that waits
before it would have been sendable. -/
theorem stamp {link : Link RING} {now : UInt32} {before after : List Frame} {f : Frame}
    (sent : SentInOrder (before ++ f :: after))
    (skipped : ∀ g ∈ before, link.sendable now g = false) :
    SentInOrder (before ++ Link.stampSent now f :: after) where
  turn := by
    intro g member later
    rcases List.mem_append.mp member with front | back
    · exact sent.turn g (List.mem_append_left _ front) later
    · rcases List.mem_cons.mp back with rfl | rest
      · rfl
      · exact sent.turn g (by simp [rest]) later
  order := by
    have pairs := List.pairwise_append.mp sent.order
    have tail := List.pairwise_cons.mp pairs.2.1
    refine List.pairwise_append.mpr
      ⟨pairs.1, List.pairwise_cons.mpr ⟨fun g _ _ _ _ => rfl, tail.2⟩, ?_⟩
    intro g front h back first second later
    rcases List.mem_cons.mp back with rfl | rest
    · have waiting := skipped g front
      simp only [Link.sendable, first, Bool.not_false, Bool.true_and] at waiting
      cases ever : g.everSent with
      | true => rfl
      | false =>
          have turn := sent.turn g (List.mem_append_left _ front)
          simp_all
    · exact pairs.2.2 g front h (List.mem_cons_of_mem _ rest) first second later

theorem nextTx {link : Link RING} (sent : SentInOrder link.win) (heatshrink : Heatshrink)
    (cap : Nat) (now : UInt32) : SentInOrder (link.nextTx heatshrink cap now).link.win := by
  have filled := sent.fillWindow
  rcases link.nextTx_cases heatshrink cap now with
    ⟨before, f, after, split, -, skipped, result⟩ | ⟨-, -, result⟩ | ⟨-, -, result⟩
  · rw [result, Link.win_sendFrame heatshrink cap now split]
    rw [split] at filled
    exact filled.stamp skipped
  · obtain ⟨ctr, persist, encoded⟩ := Link.encode_link heatshrink
      { link.fillWindow with ackSentTurn := true, ackPending := false } cap 0 0 []
    rw [result, encoded]
    exact filled
  · rw [result]
    exact filled

theorem ackProcess {link : Link RING} (sent : SentInOrder link.win) (ack : UInt8)
    (sack : UInt16) : SentInOrder (link.ackProcess ack sack).win := by
  rw [Link.ackProcess_link]
  have marked := sent.keeps
    ((keepsMarks_markCumulative link ack).trans (keepsMarks_markSack ack sack _))
  exact (marked.sublist (List.dropWhile_sublist _)).keeps (keepsMarks_flagSkipped _)

theorem accept {link : Link RING} (sent : SentInOrder link.win) (h : Header)
    (decoded : Option Bytes) : SentInOrder (link.accept h decoded).win := by
  have acked : SentInOrder (Link.ackProcess { link with
      rxCtrl := h.flags &&& ctrlMask, rxAux := h.aux, gotValidRx := true } h.ack h.sack).win := by
    apply ackProcess
    exact sent
  simp only [Link.accept]
  split
  · obtain ⟨_, _, _, _, _, _, received⟩ := Link.receiveData_link
      (Link.ackProcess { link with
        rxCtrl := h.flags &&& ctrlMask, rxAux := h.aux, gotValidRx := true } h.ack h.sack)
      h.seq decoded
    rw [received]
    exact acked
  · exact acked

theorem onRx {link : Link RING} (sent : SentInOrder link.win) (heatshrink : Heatshrink)
    (input : Bytes) : SentInOrder (link.onRx heatshrink input).link.win := by
  cases parsed : parseHeader input with
  | none =>
      simp only [Link.onRx, parsed]
      exact sent
  | some pair =>
      obtain ⟨h, body⟩ := pair
      have tracked : SentInOrder (link.trackEpoch h.epoch).win := by
        rcases link.trackEpoch_cases h.epoch with ⟨tracked, -⟩ | ⟨tracked, -⟩
        · rw [tracked]
          exact sent
        · rw [tracked]
          exact .empty
      rcases link.onRx_cases heatshrink parsed with
        same | ⟨-, seeded, max, window, refused | ⟨decoded, -, accepted⟩⟩
      · rw [same]
        exact sent
      · rw [refused]
        exact tracked
      · rw [accepted]
        apply accept
        exact tracked

theorem apply {link : Link RING} (sent : SentInOrder link.win) (heatshrink : Heatshrink)
    (op : Op) : SentInOrder (link.apply heatshrink op).win := by
  cases op with
  | init c => exact .empty
  | newSession => exact .empty
  | setTiming window retransmitMs => exact sent
  | write d =>
      obtain ⟨ring, written⟩ := link.write_link d
      simp only [Link.apply, written]
      exact sent
  | read max =>
      obtain ⟨ring, dropped, rx, next, got, taken⟩ := link.read_link max
      simp only [Link.apply, taken]
      exact sent
  | takeGotData => exact sent
  | takePeerReset => exact sent
  | takeValidRx => exact sent
  | setCtrlTx bits => exact sent
  | setAuxTx aux => exact sent
  | beginTurn => exact sent.beginTurn
  | nextTx cap now => exact sent.nextTx heatshrink cap now
  | makePoll cap =>
      obtain ⟨ctr, persist, encoded⟩ := link.encode_link heatshrink cap 0 0 []
      simp only [Link.apply, Link.makePoll, encoded]
      exact sent
  | onRx input => exact sent.onRx heatshrink input

/-- After `Init` on any memory every run keeps the order. -/
theorem run_init (heatshrink : Heatshrink) (memory : Link RING) (c : Config) (ops : List Op) :
    SentInOrder ((memory.init c).run heatshrink ops).win := by
  suffices kept : ∀ link : Link RING, SentInOrder link.win →
      SentInOrder (link.run heatshrink ops).win from kept _ .empty
  induction ops with
  | nil => exact fun _ sent => sent
  | cons op rest inductionHypothesis =>
      intro link sent
      exact inductionHypothesis _ (sent.apply heatshrink op)

end SentInOrder

end LoraSerial.LinkLayer
