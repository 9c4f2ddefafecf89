import LoraSerial.LinkLayer.Burst
import Mathlib.Data.List.ReduceOption

/-!
Owns the length of one transmit turn: `BeginTurn`, then `NextTx` calls at any clock
values with host writes and reads between them. A turn sends at most as many data
frames as the window holds or may hold, none of them twice, and one lone ack, which
comes first. Does not own when F_MORE marks the end of the burst.
-/

namespace LoraSerial.LinkLayer

open Library Library.SequenceNumber

/-- A call of the host side that may come between two `NextTx` calls of a turn. -/
inductive HostCall where
  | write (d : Bytes)
  | read (max : Nat)

def HostCall.op : HostCall → Op
  | .write d => .write d
  | .read max => .read max

inductive TurnStep where
  | host (call : HostCall)
  | nextTx (now : UInt32)

/-- The sequence number of a data frame; `none` for a lone ack. -/
def dataSeq (frame : Bytes) : Option UInt8 :=
  match parseHeader frame with
  | some (h, _) => if hasFlag h.flags fData then some h.seq else none
  | none => none

namespace Link

variable {RING : Nat}

/-- What the `NextTx` calls of a turn return; `none` is `false`. -/
def turnResults (heatshrink : Heatshrink) (cap : Nat) : Link RING → List TurnStep →
    List (Option Bytes)
  | _, [] => []
  | link, .host call :: rest =>
      turnResults heatshrink cap (link.apply heatshrink call.op) rest
  | link, .nextTx now :: rest =>
      let sent := link.nextTx heatshrink cap now
      sent.frame :: turnResults heatshrink cap sent.link rest

/-- The state after the steps of a turn. -/
def afterSteps (heatshrink : Heatshrink) (cap : Nat) (link : Link RING) (steps : List TurnStep) :
    Link RING :=
  steps.foldl (fun link step =>
    match step with
    | .host call => link.apply heatshrink call.op
    | .nextTx now => (link.nextTx heatshrink cap now).link) link

/-- `while (NextTx(.., millis())) Tx(..)`: call `index` reads `clock index`, and the idle
hook of its transmission makes the calls `hook index`. -/
def transmitLoop (heatshrink : Heatshrink) (cap : Nat) (clock : Nat → UInt32)
    (hook : Nat → List HostCall) : Nat → Nat → Link RING → Option (List Bytes)
  | 0, _, _ => none
  | fuel + 1, index, link =>
      let sent := link.nextTx heatshrink cap (clock index)
      match sent.frame with
      | none => some []
      | some frame =>
          (transmitLoop heatshrink cap clock hook fuel (index + 1)
            (sent.link.run heatshrink ((hook index).map HostCall.op))).map (frame :: ·)

/-- Sequence numbers of the window frames already sent in this turn. -/
def markedSeqs (link : Link RING) : List UInt8 :=
  (link.win.filter Frame.txThisTurn).map Frame.seq

end Link

/-- The sequence numbers of the data frames among the results. -/
def dataSeqs (results : List (Option Bytes)) : List UInt8 :=
  results.reduceOption.filterMap dataSeq

/-! ### Host calls -/

namespace Link

variable {RING : Nat}

/-- A host call leaves configuration, window and ack marks alone. -/
theorem host_link (heatshrink : Heatshrink) (link : Link RING) (call : HostCall) :
    ∃ sRing rRing dropped rx next got, link.apply heatshrink call.op =
      { link with
        sRing := sRing, rRing := rRing, rDropped := dropped, rx := rx, rxNext := next
        gotData := got } := by
  cases call with
  | write d =>
      obtain ⟨ring, written⟩ := link.write_link d
      exact ⟨ring, link.rRing, link.rDropped, link.rx, link.rxNext, link.gotData, written⟩
  | read max =>
      obtain ⟨ring, dropped, rx, next, got, taken⟩ := link.read_link max
      exact ⟨link.sRing, ring, dropped, rx, next, got, taken⟩

end Link

/-! ### One call of `NextTx` -/

namespace Link

variable {RING : Nat}

/-- No two window frames share a sequence number. -/
theorem Valid.seqs_nodup {link : Link RING} (valid : link.Valid) :
    (link.win.map Frame.seq).Nodup := by
  rw [List.nodup_iff_getElem?_ne_getElem?]
  intro left right less inside same
  rw [List.length_map] at inside
  have bound := valid.send.inflight_le
  unfold maxWin at bound
  have leftSeq := valid.send.seq_eq left _ (List.getElem?_eq_getElem (by omega))
  have rightSeq := valid.send.seq_eq right _ (List.getElem?_eq_getElem inside)
  rw [List.getElem?_map, List.getElem?_map, List.getElem?_eq_getElem (by omega),
    List.getElem?_eq_getElem inside, Option.map_some, Option.map_some, leftSeq, rightSeq] at same
  have sameOffset : UInt8.ofNat left = UInt8.ofNat right := by
    have shifted := Option.some.inj same
    grind
  have near := ofNat_inj_of_near sameOffset (by omega) (by omega)
  omega

theorem length_markedSeqs_le (link : Link RING) : link.markedSeqs.length ≤ link.win.length := by
  rw [markedSeqs, List.length_map]
  exact List.length_filter_le _ _

theorem markedSeqs_fillWindow (link : Link RING) :
    link.fillWindow.markedSeqs = link.markedSeqs := by
  rcases link.fillWindow_appends with ⟨-, same⟩ | ⟨-, added, -, appended, marks⟩
  · rw [same]
  · have unmarked : added.filter Frame.txThisTurn = [] :=
      List.filter_eq_nil_iff.mpr fun f member => by simp [marks f member]
    rw [markedSeqs, appended, List.filter_append, unmarked, List.append_nil, markedSeqs]

/-- What the window holds, or may hold after filling, is at most `bound`. -/
def Within (link : Link RING) (bound : Nat) : Prop :=
  link.win.length ≤ bound ∧ link.cfg.window.toNat ≤ bound

theorem Within.fillWindow {link : Link RING} {bound : Nat} (within : link.Within bound)
    (valid : link.sRing.WellFormed) : link.fillWindow.Within bound := by
  obtain ⟨added, fills⟩ := fillWindow_fills valid
  refine ⟨?_, by rw [cfg_fillWindow]; exact within.2⟩
  obtain ⟨ring, next, filled⟩ := fills.result
  rw [filled, List.length_append]
  rcases fills.room with rfl | room
  · exact within.1
  · exact room.trans within.2

/-- A frame that may be sent is not yet marked, and sending it marks it. -/
theorem markedSeqs_sent {link after : Link RING} {now : UInt32} {before rest : List Frame}
    {f : Frame} (valid : link.Valid) (split : link.win = before ++ f :: rest)
    (picked : link.sendable now f = true) (sentWin : after.win = before ++ stampSent now f :: rest) :
    f.seq ∉ link.markedSeqs ∧ after.markedSeqs.Perm (f.seq :: link.markedSeqs) := by
  have unmarked := (waiting_of_sendable picked).2
  have distinct := valid.seqs_nodup
  rw [split, List.map_append, List.map_cons, List.nodup_middle, List.nodup_cons] at distinct
  constructor
  · intro marked
    rw [markedSeqs, split, List.filter_append, List.filter_cons_of_neg (by simp [unmarked]),
      ← List.filter_append] at marked
    refine distinct.1 ?_
    rw [← List.map_append]
    exact (List.filter_sublist.map Frame.seq).subset marked
  · rw [markedSeqs, markedSeqs, sentWin, split, List.filter_append, List.filter_append,
      List.filter_cons_of_pos (by rfl), List.filter_cons_of_neg (by simp [unmarked]),
      List.map_append, List.map_append, List.map_cons]
    exact List.perm_middle

/-- What one `NextTx` of a turn returns and leaves behind. -/
inductive Outcome (link : Link RING) (sent : TxResult RING) : Prop where
  | idle (stopped : sent.frame = none) (marks : sent.link.markedSeqs = link.markedSeqs)
      (owed : sent.link.ackOwed = link.ackOwed)
  | data (frame : Bytes) (seq : UInt8) (produced : sent.frame = some frame)
      (numbered : dataSeq frame = some seq) (unsent : seq ∉ link.markedSeqs)
      (marks : sent.link.markedSeqs.Perm (seq :: link.markedSeqs))
      (quiet : sent.link.ackOwed = false)
  | lone (frame : Bytes) (produced : sent.frame = some frame) (bare : dataSeq frame = none)
      (marks : sent.link.markedSeqs = link.markedSeqs) (owed : link.ackOwed = true)
      (quiet : sent.link.ackOwed = false)

theorem dataSeq_encode {heatshrink : Heatshrink} {link : Link RING} {cap : Nat}
    {flags seq : UInt8} {raw frame : Bytes}
    (encoded : (link.encode heatshrink cap flags seq raw).frame = some frame) :
    dataSeq frame = if hasFlag flags fData then some seq else none := by
  obtain ⟨body, parsed⟩ := parseHeader_encode encoded
  simp only [dataSeq, parsed, hasFlag_wireHeader_data]
  rfl

theorem nextTx_outcome {link : Link RING} (ready : TurnReady link) (heatshrink : Heatshrink)
    {cap : Nat} (fits : maxFrame ≤ cap) (now : UInt32) :
    link.Outcome (link.nextTx heatshrink cap now) := by
  have filled := ready.fillWindow
  rcases link.nextTx_cases heatshrink cap now with
    ⟨before, f, rest, split, picked, -, result⟩ | ⟨-, owed, result⟩ | ⟨-, -, result⟩
  · obtain ⟨frame, sent, -⟩ := filled.sendFrame heatshrink fits now split
    have sentWin := win_sendFrame heatshrink cap now split
    obtain ⟨unsent, marks⟩ := markedSeqs_sent filled.valid split picked sentWin
    rw [markedSeqs_fillWindow] at unsent marks
    refine .data frame f.seq (by rw [result, sent]) ?_ unsent (by rw [result]; exact marks)
      (by rw [result]; rfl)
    rw [dataSeq_encode sent]
    cases (link.fillWindow.markSent now f before.length).moreToSend before.length <;> rfl
  · obtain ⟨frame, encoded, -⟩ := encode_fits heatshrink
      { link.fillWindow with ackSentTurn := true, ackPending := false } fits
      filled.shortTag 0 0 (show ([] : Bytes).length ≤ maxPay from Nat.zero_le _)
    obtain ⟨ctr, persist, sealed⟩ := encode_link heatshrink
      { link.fillWindow with ackSentTurn := true, ackPending := false } cap 0 0 []
    refine .lone frame (by rw [result]; exact encoded) (dataSeq_encode encoded) ?_ ?_ ?_
    · rw [result, sealed, ← link.markedSeqs_fillWindow]
      rfl
    · rw [← ackOwed_fillWindow, ackOwed, owed.1, owed.2]
      rfl
    · rw [result, sealed]
      rfl
  · refine .idle (by rw [result]) ?_ ?_
    · rw [result, markedSeqs_fillWindow]
    · rw [result, ackOwed_fillWindow]

theorem Within.nextTx {link : Link RING} {bound : Nat} (within : link.Within bound)
    (valid : link.Valid) (heatshrink : Heatshrink) (cap : Nat) (now : UInt32) :
    (link.nextTx heatshrink cap now).link.Within bound := by
  have filled := within.fillWindow valid.sRing
  obtain ⟨_, _, _, _, _, _, _, _, _, changed⟩ := link.nextTx_link heatshrink cap now
  refine ⟨?_, by rw [changed]; exact within.2⟩
  rcases link.nextTx_cases heatshrink cap now with
    ⟨before, f, rest, split, -, -, result⟩ | ⟨-, -, result⟩ | ⟨-, -, result⟩
  · have sameLength := filled.1
    rw [split] at sameLength
    rw [result, win_sendFrame heatshrink cap now split]
    simpa using sameLength
  · obtain ⟨ctr, persist, sealed⟩ := encode_link heatshrink
      { link.fillWindow with ackSentTurn := true, ackPending := false } cap 0 0 []
    rw [result, sealed]
    exact filled.1
  · rw [result]
    exact filled.1

/-! ### The steps of a turn -/

/-- What the `NextTx` calls of the rest of a turn may still return. -/
structure TurnBounded (link : Link RING) (bound : Nat) (results : List (Option Bytes)) :
    Prop where
  unsent : ∀ seq ∈ dataSeqs results, seq ∉ link.markedSeqs
  once : (dataSeqs results).Nodup
  count : (dataSeqs results).length + link.markedSeqs.length ≤ bound
  lone : results.reduceOption.countP (fun frame => (dataSeq frame).isNone) ≤ link.ackOwed.toNat
  first : ∀ frame ∈ results.reduceOption.tail, (dataSeq frame).isSome = true

theorem TurnBounded.of_marks {link after : Link RING} {bound : Nat}
    {results : List (Option Bytes)} (bounded : after.TurnBounded bound results)
    (marks : after.markedSeqs = link.markedSeqs) (owed : after.ackOwed = link.ackOwed) :
    link.TurnBounded bound results where
  unsent := by rw [← marks]; exact bounded.unsent
  once := bounded.once
  count := by rw [← marks]; exact bounded.count
  lone := by rw [← owed]; exact bounded.lone
  first := bounded.first

/-- With no lone ack owed, only data frames follow. -/
theorem TurnBounded.only_data {link : Link RING} {bound : Nat} {results : List (Option Bytes)}
    (bounded : link.TurnBounded bound results) (quiet : link.ackOwed = false) :
    ∀ frame ∈ results.reduceOption, (dataSeq frame).isSome = true := by
  have none := bounded.lone
  rw [quiet, Bool.toNat_false, Nat.le_zero, List.countP_eq_zero] at none
  intro frame member
  simpa [Option.isSome_iff_ne_none] using none frame member

theorem TurnBounded.idle {link : Link RING} {bound : Nat} {results : List (Option Bytes)}
    (bounded : link.TurnBounded bound results) : link.TurnBounded bound (none :: results) :=
  ⟨bounded.unsent, bounded.once, bounded.count, bounded.lone, bounded.first⟩

/-- A data frame goes out: its number is spent, and no lone ack may follow. -/
theorem TurnBounded.data {link after : Link RING} {bound : Nat} {results : List (Option Bytes)}
    {frame : Bytes} {seq : UInt8} (bounded : after.TurnBounded bound results)
    (numbered : dataSeq frame = some seq) (unsent : seq ∉ link.markedSeqs)
    (marks : after.markedSeqs.Perm (seq :: link.markedSeqs)) (quiet : after.ackOwed = false) :
    link.TurnBounded bound (some frame :: results) := by
  have onlyData := bounded.only_data quiet
  have later : dataSeqs (some frame :: results) = seq :: dataSeqs results := by
    simp only [dataSeqs, List.reduceOption_cons_of_some, List.filterMap_cons_some numbered]
  have apart : ∀ other ∈ dataSeqs results, other ≠ seq ∧ other ∉ link.markedSeqs := by
    intro other member
    have fresh := bounded.unsent other member
    rw [marks.mem_iff, List.mem_cons, not_or] at fresh
    exact fresh
  constructor
  · rw [later]
    intro other member
    rcases List.mem_cons.mp member with rfl | rest
    · exact unsent
    · exact (apart other rest).2
  · rw [later, List.nodup_cons]
    exact ⟨fun member => (apart seq member).1 rfl, bounded.once⟩
  · have count := bounded.count
    rw [marks.length_eq, List.length_cons] at count
    rw [later, List.length_cons]
    omega
  · rw [List.reduceOption_cons_of_some, List.countP_cons, numbered,
      List.countP_eq_zero.mpr fun other member => by
        simpa [Option.isSome_iff_ne_none] using onlyData other member]
    exact Nat.zero_le _
  · rw [List.reduceOption_cons_of_some]
    exact onlyData

/-- The lone ack goes out: no second one may follow. -/
theorem TurnBounded.ack {link after : Link RING} {bound : Nat} {results : List (Option Bytes)}
    {frame : Bytes} (bounded : after.TurnBounded bound results) (bare : dataSeq frame = none)
    (marks : after.markedSeqs = link.markedSeqs) (owed : link.ackOwed = true)
    (quiet : after.ackOwed = false) : link.TurnBounded bound (some frame :: results) := by
  have onlyData := bounded.only_data quiet
  have later : dataSeqs (some frame :: results) = dataSeqs results := by
    simp only [dataSeqs, List.reduceOption_cons_of_some, List.filterMap_cons_none bare]
  constructor
  · rw [later, ← marks]
    exact bounded.unsent
  · rw [later]
    exact bounded.once
  · rw [later, ← marks]
    exact bounded.count
  · rw [List.reduceOption_cons_of_some, List.countP_cons, bare, owed,
      List.countP_eq_zero.mpr fun other member => by
        simpa [Option.isSome_iff_ne_none] using onlyData other member]
    exact Nat.le_refl _
  · rw [List.reduceOption_cons_of_some]
    exact onlyData

/-- What is left of a turn is bounded by the window and what is already marked. -/
theorem turnResults_bounded (heatshrink : Heatshrink) {cap : Nat} (fits : maxFrame ≤ cap)
    {bound : Nat} (steps : List TurnStep) {link : Link RING} (ready : TurnReady link)
    (within : link.Within bound) :
    link.TurnBounded bound (link.turnResults heatshrink cap steps) := by
  induction steps generalizing link with
  | nil =>
      refine ⟨by simp [turnResults, dataSeqs], by simp [turnResults, dataSeqs], ?_,
        by simp [turnResults], by simp [turnResults]⟩
      have marked := link.length_markedSeqs_le.trans within.1
      simpa [turnResults, dataSeqs] using marked
  | cons step rest inductionHypothesis =>
      cases step with
      | host call =>
          have later := turnReady_apply ready heatshrink call.op
          obtain ⟨_, _, _, _, _, _, called⟩ := link.host_link heatshrink call
          rw [turnResults]
          rw [called] at later ⊢
          exact (inductionHypothesis later within).of_marks rfl rfl
      | nextTx now =>
          have rest := inductionHypothesis (ready.nextTx heatshrink cap now)
            (within.nextTx ready.valid heatshrink cap now)
          simp only [turnResults]
          rcases nextTx_outcome ready heatshrink fits now with
            ⟨stopped, marks, owed⟩ | ⟨frame, seq, produced, numbered, unsent, marks, quiet⟩ |
              ⟨frame, produced, bare, marks, owed, quiet⟩
          · rw [stopped]
            exact (rest.of_marks marks owed).idle
          · rw [produced]
            exact rest.data numbered unsent marks quiet
          · rw [produced]
            exact rest.ack bare marks owed quiet

/-- Every frame of a turn is a data frame or the lone ack. -/
theorem TurnBounded.length_le {link : Link RING} {bound : Nat} {results : List (Option Bytes)}
    (bounded : link.TurnBounded bound results) : results.reduceOption.length ≤ bound + 1 := by
  have parts := List.length_eq_countP_add_countP (fun frame : Bytes => (dataSeq frame).isSome)
    (l := results.reduceOption)
  have ack := bounded.lone.trans link.ackOwed.toNat_le
  have data := bounded.count
  rw [dataSeqs, List.length_filterMap_eq_countP] at data
  simp only [Bool.not_eq_true, Option.isSome_eq_false_iff, Bool.decide_eq_true] at parts
  omega

theorem turnResults_append (heatshrink : Heatshrink) (cap : Nat) (link : Link RING)
    (early late : List TurnStep) :
    link.turnResults heatshrink cap (early ++ late) =
      link.turnResults heatshrink cap early ++
        (link.afterSteps heatshrink cap early).turnResults heatshrink cap late := by
  induction early generalizing link with
  | nil => rfl
  | cons step rest inductionHypothesis =>
      cases step with
      | host call => exact inductionHypothesis _
      | nextTx now =>
          simp only [List.cons_append, turnResults, inductionHypothesis]
          rfl

/-! ### The transmit loop -/

theorem turnResults_host (heatshrink : Heatshrink) (cap : Nat) (link : Link RING)
    (calls : List HostCall) (steps : List TurnStep) :
    link.turnResults heatshrink cap (calls.map .host ++ steps) =
      (link.run heatshrink (calls.map HostCall.op)).turnResults heatshrink cap steps := by
  induction calls generalizing link with
  | nil => rfl
  | cons call rest inductionHypothesis => exact inductionHypothesis _

/-- The loop makes the steps of a turn, and ends at its first `false`. -/
theorem transmitLoop_steps {heatshrink : Heatshrink} {cap : Nat} {clock : Nat → UInt32}
    {hook : Nat → List HostCall} {fuel index : Nat} {link : Link RING} {frames : List Bytes}
    (ended : link.transmitLoop heatshrink cap clock hook fuel index = some frames) :
    ∃ steps, (link.turnResults heatshrink cap steps).reduceOption = frames := by
  induction fuel generalizing index link frames with
  | zero => cases ended
  | succ fuel inductionHypothesis =>
      simp only [transmitLoop] at ended
      cases produced : (link.nextTx heatshrink cap (clock index)).frame with
      | none =>
          rw [produced] at ended
          cases ended
          exact ⟨[.nextTx (clock index)], by simp [turnResults, produced]⟩
      | some frame =>
          rw [produced] at ended
          obtain ⟨rest, followed, rfl⟩ := Option.map_eq_some_iff.mp ended
          obtain ⟨steps, results⟩ := inductionHypothesis followed
          refine ⟨.nextTx (clock index) :: ((hook index).map .host ++ steps), ?_⟩
          simp only [turnResults, produced, turnResults_host, List.reduceOption_cons_of_some,
            results]

theorem hook_keeps {link : Link RING} (ready : TurnReady link) (heatshrink : Heatshrink)
    (calls : List HostCall) :
    TurnReady (link.run heatshrink (calls.map HostCall.op)) ∧
      (link.run heatshrink (calls.map HostCall.op)).turnRank = link.turnRank := by
  induction calls generalizing link with
  | nil => exact ⟨ready, rfl⟩
  | cons call rest inductionHypothesis =>
      obtain ⟨later, sameRank⟩ := inductionHypothesis (turnReady_apply ready heatshrink call.op)
      refine ⟨later, sameRank.trans ?_⟩
      obtain ⟨_, _, _, _, _, _, called⟩ := link.host_link heatshrink call
      rw [called]
      rfl

/-- Each frame lowers the rank, whatever the clock says and the host does. -/
theorem transmitLoop_stops (heatshrink : Heatshrink) {cap : Nat} (fits : maxFrame ≤ cap)
    (clock : Nat → UInt32) (hook : Nat → List HostCall) {fuel : Nat} (index : Nat)
    {link : Link RING} (ready : TurnReady link) (enough : link.turnRank < fuel) :
    ∃ frames, link.transmitLoop heatshrink cap clock hook fuel index = some frames := by
  induction fuel generalizing index link with
  | zero => exact absurd enough (Nat.not_lt_zero _)
  | succ fuel inductionHypothesis =>
      simp only [transmitLoop]
      rcases link.nextTx_sends ready heatshrink fits (clock index) with
        ⟨stopped, -⟩ | ⟨frame, produced, sends⟩
      · rw [stopped]
        exact ⟨[], rfl⟩
      · obtain ⟨later, sameRank⟩ := hook_keeps
          (ready.nextTx heatshrink cap (clock index)) heatshrink (hook index)
        have rank := sends.rank
        obtain ⟨rest, ended⟩ := inductionHypothesis (index + 1) later (by omega)
        rw [produced]
        exact ⟨frame :: rest, by simp only [ended, Option.map_some]⟩

/-! ### The whole turn -/

/-- Limits on one turn: what its `NextTx` calls return, in any order of calls, and the
transmit loop. -/
structure TurnEnds (heatshrink : Heatshrink) (cap bound : Nat) (link : Link RING)
    (steps : List TurnStep) : Prop where
  data : (dataSeqs (link.turnResults heatshrink cap steps)).length ≤ bound
  once : (dataSeqs (link.turnResults heatshrink cap steps)).Nodup
  lone : (link.turnResults heatshrink cap steps).reduceOption.countP
    (fun frame => (dataSeq frame).isNone) ≤ 1
  first : ∀ frame ∈ (link.turnResults heatshrink cap steps).reduceOption.tail,
    (dataSeq frame).isSome = true
  done : ∀ early late, steps = early ++ late →
    bound + 1 ≤ (link.turnResults heatshrink cap early).reduceOption.length →
    ∀ result ∈ (link.afterSteps heatshrink cap early).turnResults heatshrink cap late,
      result = none
  loop : ∀ clock hook, ∃ frames,
    link.transmitLoop heatshrink cap clock hook (maxWin + 2) 0 = some frames ∧
      frames.length ≤ bound + 1

/-- From every reachable state, at any clock values and with any host calls in between, a
turn sends at most as many data frames as are in flight or fit the window, each sequence
number once, and at most one lone ack, before any data frame; after that many frames
`NextTx` returns false, and the transmit loop ends. -/
theorem turn_ends (positive : 0 < RING) (heatshrink : Heatshrink) (memory : Link RING)
    (c : Config) (ops : List Op) {cap : Nat} (fits : maxFrame ≤ cap) (steps : List TurnStep) :
    TurnEnds heatshrink cap
      (max ((memory.init c).run heatshrink ops).win.length
        ((memory.init c).run heatshrink ops).cfg.window.toNat)
      ((memory.init c).run heatshrink ops).beginTurn steps := by
  have ready := (turnReady_run_init positive heatshrink memory c ops).beginTurn
  have within : ((memory.init c).run heatshrink ops).beginTurn.Within
      (max ((memory.init c).run heatshrink ops).win.length
        ((memory.init c).run heatshrink ops).cfg.window.toNat) :=
    ⟨(List.length_map _).trans_le (Nat.le_max_left _ _), Nat.le_max_right _ _⟩
  have rank := turnRank_beginTurn_lt ((memory.init c).run heatshrink ops)
  generalize ((memory.init c).run heatshrink ops).beginTurn = link at ready within rank ⊢
  have limits := fun steps => turnResults_bounded heatshrink fits steps ready within
  constructor
  · exact (Nat.le_add_right _ _).trans (limits steps).count
  · exact (limits steps).once
  · exact (limits steps).lone.trans link.ackOwed.toNat_le
  · exact (limits steps).first
  · rintro early late rfl spent
    have whole := (limits (early ++ late)).length_le
    rw [turnResults_append, List.reduceOption_append, List.length_append] at whole
    intro result member
    cases result with
    | none => rfl
    | some frame =>
        have sent := List.length_pos_of_mem (List.reduceOption_mem_iff.mpr member)
        omega
  · intro clock hook
    obtain ⟨frames, ended⟩ := transmitLoop_stops heatshrink fits clock hook 0 ready rank
    obtain ⟨made, results⟩ := transmitLoop_steps ended
    exact ⟨frames, ended, results ▸ (limits made).length_le⟩

/-- One data frame heard: the link owes an ack and has nothing to send. -/
def frameHeard : List Op :=
  [.onRx [2, 1, 1, 0, 0, 1, 0, 0, 1, 0, 7]]

/-- The host writes while the lone ack is on the air. -/
def writeDuringAck : List TurnStep :=
  [.nextTx 0, .host (.write [9]), .nextTx 0]

theorem turn_ends_writeDuringAck :
    TurnEnds .copying maxFrame
      (max (((zeroed .default : Link 4).init .default).run .copying frameHeard).win.length
        (((zeroed .default : Link 4).init .default).run .copying frameHeard).cfg.window.toNat)
      (((zeroed .default : Link 4).init .default).run .copying frameHeard).beginTurn
      writeDuringAck :=
  turn_ends (by decide) .copying _ .default frameHeard (Nat.le_refl _) writeDuringAck

/-- `NextTx` returns false ever after once it has returned a lone ack. -/
def SilentAfterAck (results : List (Option Bytes)) : Prop :=
  ∀ before frame after, results = before ++ some frame :: after → dataSeq frame = none →
    ∀ result ∈ after, result = none

/-- The lone ack goes out first, and then the data frame the host has written. -/
theorem data_after_lone_ack :
    ¬SilentAfterAck
      ((((zeroed .default : Link 4).init .default).run .copying
        frameHeard).beginTurn.turnResults .copying maxFrame writeDuringAck) := by
  intro silent
  have results : (((zeroed .default : Link 4).init .default).run .copying
      frameHeard).beginTurn.turnResults .copying maxFrame writeDuringAck =
        [some [1, 255, 0, 0, 1, 1, 0, 0, 0, 0], some [1, 255, 1, 0, 1, 1, 0, 0, 1, 0, 9]] := by
    decide
  have late := silent [] _ _ results (by decide) _ (List.mem_singleton_self _)
  cases late

end Link

end LoraSerial.LinkLayer
