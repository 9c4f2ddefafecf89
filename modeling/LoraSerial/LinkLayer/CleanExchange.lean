import LoraSerial.LinkLayer.Acceptance

/-!
Owns one clean exchange between a linked pair: a lossless turn of one end, every frame
of it fed to the peer at once, then a lossless turn of the peer. Once the retransmit
time has passed and the receive ring is read empty, it delivers every framed byte and
empties the send window, unless a frame counter wraps on the way.
-/

namespace LoraSerial.LinkLayer

open Library Library.SequenceNumber
open Library.SelectiveRepeat (State Data Step)

namespace World

variable {A B : Nat}

/-! ### Turns -/

/-- What `NextTx` at one end returns. -/
def offered (heatshrink : Heatshrink) (w : World A B) (side : Side) (cap : Nat) (now : UInt32) :
    Option Bytes :=
  match side with
  | .a => (w.a.link.nextTx heatshrink cap now).frame
  | .b => (w.b.link.nextTx heatshrink cap now).frame

/-- A frame of `NextTx` that reaches the peer. -/
def pass (side : Side) (cap : Nat) (now : UInt32) : List Action :=
  [.call side (.nextTx cap now), .deliver side]

/-- `while (NextTx(..)) OnRx(..)`: call `index` reads `clock index`. -/
def turnLoop (heatshrink : Heatshrink) (side : Side) (cap : Nat) (clock : Nat → UInt32) :
    Nat → Nat → World A B → Option (List Action)
  | 0, _, _ => none
  | fuel + 1, index, w =>
      match w.offered heatshrink side cap (clock index) with
      | none => some [.call side (.nextTx cap (clock index))]
      | some _ =>
          (turnLoop heatshrink side cap clock fuel (index + 1)
            (w.run heatshrink (pass side cap (clock index)))).map (pass side cap (clock index) ++ ·)

/-- The actions of one lossless turn. -/
def turn (heatshrink : Heatshrink) (w : World A B) (side : Side) (cap : Nat)
    (clock : Nat → UInt32) : Option (List Action) :=
  (turnLoop heatshrink side cap clock (maxWin + 2) 0
    (w.step heatshrink (.call side .beginTurn))).map (.call side .beginTurn :: ·)

/-- The turn of an end that answers: a poll goes out when `NextTx` has nothing. -/
def answer (heatshrink : Heatshrink) (w : World A B) (side : Side) (cap : Nat)
    (clock : Nat → UInt32) : Option (List Action) :=
  (w.turn heatshrink side cap clock).map fun actions =>
    match (w.step heatshrink (.call side .beginTurn)).offered heatshrink side cap (clock 0) with
    | none => actions ++ [.call side (.makePoll cap), .deliver side]
    | some _ => actions

/-- A turn of `a`, then the answer of `b`. -/
def exchange (heatshrink : Heatshrink) (w : World A B) (cap : Nat) (clockA clockB : Nat → UInt32) :
    Option (List Action) :=
  match w.turn heatshrink .a cap clockA with
  | none => none
  | some first => ((w.run heatshrink first).answer heatshrink .b cap clockB).map (first ++ ·)

/-- The sender keeps no frame, and every byte it framed has been delivered. -/
structure Cleared (w : World A B) : Prop where
  window : w.a.link.win = []
  delivered : w.b.read ++ w.b.link.rRing.contents = w.a.framed.flatten

/-- Nothing is in flight, the sender's frames have timed out at every clock value of its
turn, and `Read` has emptied the receive ring. -/
structure Clean (clock : Nat → UInt32) (w : World A B) : Prop where
  quiet : w.a.air = [] ∧ w.b.air = []
  elapsed : ∀ f ∈ w.a.link.win, f.everSent = true →
    ∀ index, w.a.link.cfg.retransmitMs ≤ clock index - f.sentAt
  drained : w.b.link.rRing.contents = []

/-! ### Rules for a turn -/

variable {heatshrink : Heatshrink} {side : Side} {cap : Nat} {clock : Nat → UInt32}

/-- The end may take its turn, and has fewer than `fuel` frames to send in it. -/
def Ready (w : World A B) (fuel : Nat) : Side → Prop
  | .a => TurnReady w.a.link ∧ w.a.link.turnRank < fuel
  | .b => TurnReady w.b.link ∧ w.b.link.turnRank < fuel

theorem ready_beginTurn {w : World A B} (ready : TurnReady w.a.link ∧ TurnReady w.b.link)
    (side : Side) :
    (w.step heatshrink (.call side .beginTurn)).Ready (maxWin + 2) side := by
  cases side with
  | a => exact ⟨ready.1.beginTurn, Link.turnRank_beginTurn_lt _⟩
  | b => exact ⟨ready.2.beginTurn, Link.turnRank_beginTurn_lt _⟩

/-- The arrival of its own frames leaves a link alone. -/
theorem link_pass (heatshrink : Heatshrink) (w : World A B) (cap : Nat) (now : UInt32) :
    (w.run heatshrink (pass .a cap now)).a.link = (w.a.link.nextTx heatshrink cap now).link ∧
      (w.run heatshrink (pass .b cap now)).b.link = (w.b.link.nextTx heatshrink cap now).link := by
  constructor <;> simp only [run, pass, List.foldl_cons, List.foldl_nil, step] <;> split <;> rfl

theorem Ready.pass {w : World A B} {fuel : Nat} (ready : w.Ready (fuel + 1) side)
    (fits : maxFrame ≤ cap) {now : UInt32} {frame : Bytes}
    (produced : w.offered heatshrink side cap now = some frame) :
    (w.run heatshrink (World.pass side cap now)).Ready fuel side := by
  obtain ⟨passedA, passedB⟩ := w.link_pass heatshrink cap now
  cases side with
  | a =>
      obtain ⟨ready, enough⟩ := ready
      rcases Link.nextTx_sends ready heatshrink fits now with ⟨stopped, -⟩ | ⟨_, -, sends⟩
      · rw [offered, stopped] at produced
        cases produced
      · have rank := sends.rank
        rw [Ready, passedA]
        exact ⟨ready.nextTx heatshrink cap now, by omega⟩
  | b =>
      obtain ⟨ready, enough⟩ := ready
      rcases Link.nextTx_sends ready heatshrink fits now with ⟨stopped, -⟩ | ⟨_, -, sends⟩
      · rw [offered, stopped] at produced
        cases produced
      · have rank := sends.rank
        rw [Ready, passedB]
        exact ⟨ready.nextTx heatshrink cap now, by omega⟩

/-- The loop ends. -/
theorem turnLoop_ends (fits : maxFrame ≤ cap) {fuel : Nat} (index : Nat) {w : World A B}
    (ready : w.Ready fuel side) :
    ∃ actions, w.turnLoop heatshrink side cap clock fuel index = some actions := by
  induction fuel generalizing index w with
  | zero => cases side <;> exact absurd ready.2 (Nat.not_lt_zero _)
  | succ fuel inductionHypothesis =>
      simp only [turnLoop]
      split
      · exact ⟨_, rfl⟩
      next produced =>
        obtain ⟨rest, ended⟩ := inductionHypothesis (index + 1) (ready.pass fits produced)
        rw [ended]
        exact ⟨_, rfl⟩

/-- What every frame of the loop keeps holds when `NextTx` returns false. -/
theorem turnLoop_induction {motive : Nat → World A B → Prop}
    (keeps : ∀ index w frame, motive index w →
      w.offered heatshrink side cap (clock index) = some frame →
      Run.Along (step heatshrink) (NoWrap heatshrink) w (pass side cap (clock index)) →
      motive (index + 1) (w.run heatshrink (pass side cap (clock index))))
    {fuel index : Nat} {w : World A B} {actions : List Action}
    (ended : w.turnLoop heatshrink side cap clock fuel index = some actions)
    (noWrap : Run.Along (step heatshrink) (NoWrap heatshrink) w actions)
    (start : motive index w) :
    ∃ index last, motive index last ∧ last.offered heatshrink side cap (clock index) = none ∧
      w.run heatshrink actions = last.step heatshrink (.call side (.nextTx cap (clock index))) := by
  induction fuel generalizing index w actions with
  | zero => cases ended
  | succ fuel inductionHypothesis =>
      simp only [turnLoop] at ended
      split at ended
      next stopped =>
        cases ended
        exact ⟨index, w, start, stopped, rfl⟩
      next frame produced =>
        obtain ⟨rest, later, rfl⟩ := Option.map_eq_some_iff.mp ended
        rw [Run.along_append] at noWrap
        obtain ⟨index, last, holds, stopped, reached⟩ := inductionHypothesis later noWrap.2
          (keeps index w frame start produced noWrap.1)
        refine ⟨index, last, holds, stopped, ?_⟩
        rw [run, List.foldl_append]
        exact reached

theorem ready_run (heatshrink : Heatshrink) {w : World A B}
    (ready : TurnReady w.a.link ∧ TurnReady w.b.link) (actions : List Action) :
    TurnReady (w.run heatshrink actions).a.link ∧ TurnReady (w.run heatshrink actions).b.link := by
  induction actions generalizing w with
  | nil => exact ready
  | cons action rest inductionHypothesis =>
      exact inductionHypothesis (ready_step heatshrink ready action)

theorem turn_completes (fits : maxFrame ≤ cap) {w : World A B}
    (ready : TurnReady w.a.link ∧ TurnReady w.b.link) (side : Side) :
    ∃ actions, w.turn heatshrink side cap clock = some actions := by
  have started : (w.step heatshrink (.call side .beginTurn)).Ready (maxWin + 2) side :=
    ready_beginTurn ready side
  obtain ⟨actions, ended⟩ : ∃ actions, turnLoop heatshrink side cap clock (maxWin + 2) 0
      (w.step heatshrink (.call side .beginTurn)) = some actions := turnLoop_ends fits 0 started
  exact ⟨_, by rw [turn, ended]; rfl⟩

end World

/-! ### The sender's turn -/

variable {A B : Nat} {heatshrink : Heatshrink}

/-- A frame of the filled window was in the window before, or is new. -/
theorem Link.getElem?_fillWindow {RING : Nat} {link : Link RING} {index : Nat} {f : Frame}
    (found : link.fillWindow.win[index]? = some f) :
    link.win[index]? = some f ∨
      f.acked = false ∧ f.everSent = false ∧ f.txThisTurn = false := by
  rcases link.fillWindow_appends with ⟨-, same⟩ | ⟨-, added, -, appended, fresh⟩
  · rw [same] at found
    exact Or.inl found
  · rw [appended, List.getElem?_append] at found
    split at found
    · exact Or.inl found
    · exact Or.inr (fresh f (List.mem_of_getElem? found))

/-- A window frame is encoded as data, whatever F_MORE says. -/
theorem Link.sendFrame_encode {RING : Nat} (heatshrink : Heatshrink) (link : Link RING) (cap : Nat)
    (now : UInt32) (f : Frame) (pick : Nat) :
    ∃ flags, (flags = fData ∨ flags = fData ||| fMore) ∧
      link.sendFrame heatshrink cap now f pick =
        { (link.markSent now f pick).encode heatshrink cap flags f.seq f.raw with
          link := { ((link.markSent now f pick).encode heatshrink cap flags f.seq f.raw).link with
            ackPending := false } } := by
  refine ⟨_, ?_, rfl⟩
  split
  · exact Or.inr rfl
  · exact Or.inl rfl

/-- Within the sender's turn: the receiver has every frame sent in it, every other one is
due, and the receiver has read its first `read` frames and no more. -/
structure Sending (heatshrink : Heatshrink) (clock : Nat → UInt32) (read : Nat) (a : End A)
    (b : End B) (s : State) : Prop where
  flow : Flow heatshrink a b s
  quiet : a.air = [] ∧ b.air = []
  behind : s.base ≤ read
  ahead : read ≤ s.delivered
  taken : b.read = (a.framed.take read).flatten
  sent : ∀ index f, a.link.win[index]? = some f → f.txThisTurn = true → s.Has (s.base + index)
  due : ∀ f ∈ a.link.win, f.everSent = true → f.txThisTurn = true ∨
    ∀ index, a.link.cfg.retransmitMs ≤ clock index - f.sentAt

namespace Sending

variable {clock : Nat → UInt32} {read : Nat} {a : End A} {b : End B} {s : State}

/-- Every frame built fits the receive window. -/
theorem built_le (sending : Sending heatshrink clock read a b s) :
    s.built ≤ s.delivered + maxWin := by
  have recent := sending.flow.protocol.window
  have behind := sending.behind
  have ahead := sending.ahead
  omega

theorem fillWindow (sending : Sending heatshrink clock read a b s) :
    ∃ built, Sending heatshrink clock read
      { a with link := a.link.fillWindow, framed := a.framed ++ End.newlyFramed a.link } b
      { s with built := built } := by
  obtain ⟨built, flow⟩ := sending.flow.fillWindow
  have within : read ≤ a.framed.length := by
    have delivered := sending.flow.protocol.delivered_le_built
    have ahead := sending.ahead
    have length := sending.flow.sends.built
    omega
  refine ⟨built, flow, sending.quiet, sending.behind, sending.ahead, ?_, ?_, ?_⟩
  · rw [sending.taken, List.take_append_of_le_length within]
  · intro index f found marked
    rcases Link.getElem?_fillWindow found with old | ⟨-, -, unmarked⟩
    · exact sending.sent index f old marked
    · rw [unmarked] at marked
      cases marked
  · intro f member ever
    obtain ⟨index, found⟩ := List.mem_iff_getElem?.mp member
    rcases Link.getElem?_fillWindow found with old | ⟨-, unsent, -⟩
    · rw [Link.cfg_fillWindow]
      exact sending.due f (List.mem_of_getElem? old) ever
    · rw [unsent] at ever
      cases ever

/-- The receiver takes a frame off the empty air. -/
theorem receives (sending : Sending heatshrink clock read a b s) {heard : Link B}
    {data : Option Data} (sent : Step maxWin s { s with data := s.data ++ [data] }) {h : Header}
    {raw : Bytes} (short : raw.length ≤ maxPay)
    (accepted : ∃ epoch seeded max window, heard = Link.accept { b.link with
      peerEpoch := epoch, rxCtrInit := seeded, rxCtrMax := max, rxWindow := window } h (some raw))
    (cargo : hasFlag h.flags fData = true → ∃ p, data = some p ∧ h.seq = UInt8.ofNat p.index ∧
      a.framed[p.index]? = some raw) :
    ∃ delivered held,
      Relation.ReflTransGen (Step maxWin) s { s with delivered := delivered, held := held } ∧
        Receives heard a.framed b.read { s with delivered := delivered, held := held } ∧
        (hasFlag h.flags fData = true → ∀ p, data = some p → p.index < s.delivered + maxWin →
          State.Has { s with delivered := delivered, held := held } p.index) := by
  have nothing : s.data = [] := by
    have data := sending.flow.data
    rw [sending.quiet.1] at data
    exact List.forall₂_nil_right_iff.mp data
  obtain ⟨epoch, seeded, max, window, rfl⟩ := accepted
  have same : Receives { b.link with
      peerEpoch := epoch, rxCtrInit := seeded, rxCtrMax := max, rxWindow := window } a.framed b.read
      { s with data := s.data ++ [data] } :=
    { sending.flow.receives.of_receiveView rfl with }
  have valid : Link.Valid { b.link with
      peerEpoch := epoch, rxCtrInit := seeded, rxCtrMax := max, rxWindow := window } :=
    { sending.flow.receiver_valid with }
  obtain ⟨delivered, held, steps, receives, has⟩ := same.accept valid
    (sending.flow.protocol.step sent) (by rw [nothing]; rfl) fun carriesData => by
      obtain ⟨p, rfl, numbered, found⟩ := cargo carriesData
      exact ⟨p, raw, rfl, numbered, found, rfl, by unfold decMax; omega⟩
  have drained : ({ s with data := [], delivered := delivered, held := held } : State) =
      { s with delivered := delivered, held := held } := by
    rw [← nothing]
  refine ⟨delivered, held, ?_, { receives with }, has⟩
  rw [← drained]
  exact .head sent steps

/-- The sender has marked a frame, and the receiver has heard it. -/
theorem hear (sending : Sending heatshrink clock read a b s) {after : Link A} {bytes : Bytes}
    {delivered : Nat} {held : Nat → Prop}
    (steps : Relation.ReflTransGen (Step maxWin) s { s with delivered := delivered, held := held })
    (receives : Receives (b.hear heatshrink bytes).link a.framed b.read
      { s with delivered := delivered, held := held })
    (valid : after.Valid) (wire : after.wireView = a.link.wireView)
    (sends : Sends after a.framed s)
    (sent : ∀ index f, after.win[index]? = some f → f.txThisTurn = true →
      State.Has { s with delivered := delivered, held := held } (s.base + index))
    (due : ∀ f ∈ after.win, f.everSent = true → f.txThisTurn = true ∨
      ∀ index, after.cfg.retransmitMs ≤ clock index - f.sentAt) :
    Sending heatshrink clock read { a with link := after } (b.hear heatshrink bytes)
      { s with delivered := delivered, held := held } where
  flow := by
    have flow : Flow heatshrink { a with link := after } b s :=
      sending.flow.sender_congr valid sends wire rfl rfl
    have settings : (b.hear heatshrink bytes).link.sealSettings = b.link.sealSettings :=
      congrArg Prod.fst (b.wireView_hear heatshrink bytes)
    exact { flow with
      protocol := flow.protocol.steps steps
      receiver_valid := flow.receiver_valid.onRx heatshrink bytes
      same_seal := settings.trans flow.same_seal
      sends := { flow.sends with }
      receives := receives
      acks := by
        rw [End.myEpoch_hear]
        exact flow.acks }
  quiet := sending.quiet
  behind := sending.behind
  ahead := sending.ahead.trans (Step.has_steps steps).1
  taken := sending.taken
  sent := sent
  due := due

/-- A frame of the filled window goes out and arrives. -/
theorem pass_data (sending : Sending heatshrink clock read a b s) {after : Link A} {pick : Nat}
    {f : Frame} (found : a.link.win[pick]? = some f) (now : UInt32) {h : Header} {frame : Bytes}
    (accepted : ∃ epoch seeded max window, (b.hear heatshrink frame).link = Link.accept { b.link with
      peerEpoch := epoch, rxCtrInit := seeded, rxCtrMax := max
      rxWindow := window } h (some f.raw))
    (carriesData : hasFlag h.flags fData = true) (numbered : h.seq = f.seq) (valid : after.Valid)
    (wire : after.wireView = a.link.wireView) (base : after.baseSeq = a.link.baseSeq)
    (cfg : after.cfg = a.link.cfg)
    (window : after.win = a.link.win.modify pick (Link.stampSent now)) :
    ∃ t, Sending heatshrink clock read { a with link := after } (b.hear heatshrink frame) t := by
  have flow := sending.flow
  have length := flow.sends.length flow.protocol
  have inside := (List.getElem?_eq_some_iff.mp found).1
  have short := (flow.sender_valid.send.payload f (List.mem_of_getElem? found)).2
  have near := sending.built_le
  have others : ∀ {index : Nat} {g : Frame}, after.win[index]? = some g →
      (index = pick ∧ g.txThisTurn = true) ∨ a.link.win[index]? = some g := by
    intro index g position
    rw [window, List.getElem?_modify] at position
    obtain ⟨original, old, rfl⟩ := Option.map_eq_some_iff.mp position
    by_cases same : pick = index
    · exact Or.inl ⟨same.symm, by rw [if_pos same]; rfl⟩
    · rw [if_neg same]
      exact Or.inr old
  obtain ⟨delivered, held, steps, receives, has⟩ := sending.receives
    (.send (s.base + pick) (Nat.le_add_right _ _) (by omega)) short accepted
    fun _ => ⟨⟨s.base + pick, s.built⟩, rfl,
      numbered.trans (flow.sends.seq flow.sender_valid found), flow.sends.raw found⟩
  refine ⟨_, sending.hear steps receives valid wire (flow.sends.congr ?_ ?_ base) ?_ ?_⟩
  · rw [window, Link.map_cargo_modify]
  · rw [window, Link.map_acked_modify]
  · intro index g position marked
    rcases others position with ⟨rfl, -⟩ | old
    · exact has carriesData _ rfl (by simp only; omega)
    · exact (Step.has_steps steps).2 _ (sending.sent index g old marked)
  · intro g member ever
    obtain ⟨index, position⟩ := List.mem_iff_getElem?.mp member
    rcases others position with ⟨-, marked⟩ | old
    · exact Or.inl marked
    · rw [cfg]
      exact sending.due g (List.mem_of_getElem? old) ever

/-- A lone ack goes out and arrives. -/
theorem pass_bare (sending : Sending heatshrink clock read a b s) {after : Link A} {h : Header}
    {frame : Bytes}
    (accepted : ∃ epoch seeded max window, (b.hear heatshrink frame).link = Link.accept { b.link with
      peerEpoch := epoch, rxCtrInit := seeded, rxCtrMax := max
      rxWindow := window } h (some []))
    (bare : hasFlag h.flags fData = false) (valid : after.Valid)
    (wire : after.wireView = a.link.wireView) (view : after.sendView = a.link.sendView)
    (cfg : after.cfg = a.link.cfg) :
    ∃ t, Sending heatshrink clock read { a with link := after } (b.hear heatshrink frame) t := by
  obtain ⟨delivered, held, steps, receives, -⟩ :=
    sending.receives .sendBare (show ([] : Bytes).length ≤ maxPay from Nat.zero_le _) accepted
      fun carriesData => absurd carriesData (by rw [bare]; decide)
  have window : after.win = a.link.win := congrArg Prod.fst view
  refine ⟨_, sending.hear steps receives valid wire (sending.flow.sends.of_sendView view) ?_ ?_⟩
  · rw [window]
    exact fun index g position marked =>
      (Step.has_steps steps).2 _ (sending.sent index g position marked)
  · rw [window, cfg]
    exact sending.due

/-- One frame of the turn. -/
theorem pass (sending : Sending heatshrink clock read a b s) (inverts : heatshrink.Inverts)
    (attuned : Attuned a b) (known : b.link.peerEpoch = 0 ∨ b.link.peerEpoch = a.link.myEpoch)
    {cap : Nat} {now : UInt32} {frame : Bytes}
    (produced : (a.link.nextTx heatshrink cap now).frame = some frame)
    (noWrap : a.link.txCtr64 ≤ (a.link.nextTx heatshrink cap now).link.txCtr64) :
    ∃ t, Sending heatshrink clock read
      { a with
        link := (a.link.nextTx heatshrink cap now).link
        framed := a.framed ++ End.newlyFramed a.link } (b.hear heatshrink frame) t := by
  have valid := sending.flow.sender_valid.nextTx heatshrink cap now
  have shortTag := sending.flow.short_tag
  obtain ⟨ring, win, next, same⟩ := a.link.fillWindow_link
  obtain ⟨built, filled⟩ := sending.fillWindow
  rcases a.link.nextTx_cases heatshrink cap now with
    ⟨before, f, rest, split, -, -, result⟩ | ⟨-, -, result⟩ | ⟨-, -, result⟩ <;>
    rw [result] at produced noWrap valid ⊢
  · obtain ⟨flags, kind, encodes⟩ :=
      a.link.fillWindow.sendFrame_encode heatshrink cap now f before.length
    rw [encodes] at produced noWrap valid ⊢
    have found : a.link.fillWindow.win[before.length]? = some f := by
      rw [split, List.getElem?_append_right (Nat.le_refl _), Nat.sub_self, List.getElem?_cons_zero]
    have short := (filled.flow.sender_valid.send.payload f (List.mem_of_getElem? found)).2
    obtain ⟨seeded, max, window, accepted⟩ := attuned.hears inverts shortTag known
      (by rw [same]; rfl) (by rcases kind with rfl | rfl <;> decide) short produced noWrap
    obtain ⟨ctr, persist, counted⟩ := (a.link.fillWindow.markSent now f before.length).encode_link
      heatshrink cap flags f.seq f.raw
    refine filled.pass_data found now ⟨_, seeded, max, window, accepted⟩ ?_ rfl valid ?_ ?_ ?_ ?_
    · rw [Link.hasFlag_wireHeader_data]
      rcases kind with rfl | rfl <;> decide
    all_goals
      simp only [counted]
      rfl
  · obtain ⟨seeded, max, window, accepted⟩ := attuned.hears inverts shortTag known
      (by rw [same]; rfl) (by decide) (Nat.zero_le _) produced noWrap
    obtain ⟨ctr, persist, counted⟩ := Link.encode_link heatshrink
      { a.link.fillWindow with ackSentTurn := true, ackPending := false } cap 0 0 []
    refine filled.pass_bare ⟨_, seeded, max, window, accepted⟩ ?_ valid ?_ ?_ ?_
    · rw [Link.hasFlag_wireHeader_data]
      decide
    all_goals simp only [counted] <;> rfl
  · cases produced

/-- Once nothing is sendable, the receiver has every frame built. -/
theorem has_built (sending : Sending heatshrink clock read a b s) {index : Nat}
    (idle : ∀ g ∈ a.link.win, a.link.sendable (clock index) g = false) {n : Nat}
    (below : n < s.built) : s.Has n := by
  have flow := sending.flow
  have length := flow.sends.length flow.protocol
  rcases Nat.lt_or_ge n s.base with dropped | inside
  · exact flow.protocol.dropped_has n dropped
  · obtain ⟨f, found⟩ : ∃ f, a.link.win[n - s.base]? = some f :=
      ⟨_, List.getElem?_eq_getElem (by omega)⟩
    have member := List.mem_of_getElem? found
    have same : s.base + (n - s.base) = n := by omega
    have acked := flow.sends.acked _ f found
    have sent := sending.sent _ f found
    have due := sending.due f member
    rw [same] at acked sent
    have unsendable := idle f member
    simp only [Link.sendable] at unsendable
    by_cases marked : f.acked = true
    · exact flow.protocol.acked_has n (acked marked)
    by_cases this : f.txThisTurn = true
    · exact sent this
    · exfalso
      by_cases ever : f.everSent = true
      · simp [marked, this, (due ever).resolve_left this index] at unsendable
      · simp [marked, this, ever] at unsendable

/-- Every frame the sender still keeps fits a payload. -/
theorem short (sending : Sending heatshrink clock read a b s) {n : Nat} (above : s.base ≤ n)
    {raw : Bytes} (found : a.framed[n]? = some raw) : raw.length ≤ maxPay := by
  have window := congrArg (fun list => list[n - s.base]?) sending.flow.sends.window
  simp only [List.getElem?_map, List.getElem?_drop, Nat.add_sub_cancel' above, found] at window
  obtain ⟨f, position, rfl⟩ := Option.map_eq_some_iff.mp window
  exact (sending.flow.sender_valid.send.payload f (List.mem_of_getElem? position)).2

/-- What was delivered since the receive ring was empty is in it. -/
theorem count_le (sending : Sending heatshrink clock read a b s) :
    b.link.rRing.count ≤ (s.delivered - read) * maxPay := by
  have out := sending.flow.receives.out
  have split : (a.framed.take s.delivered).take read = a.framed.take read := by
    rw [List.take_take, Nat.min_eq_left sending.ahead]
  rw [sending.taken, ← split, ← List.take_append_drop read (a.framed.take s.delivered),
    List.flatten_append, List.take_append_drop, List.append_cancel_left_eq] at out
  rw [← RingBuffer.length_contents, out, List.length_flatten]
  refine (List.sum_le_card_nsmul _ maxPay fun length member => ?_).trans ?_
  · obtain ⟨raw, inside, rfl⟩ := List.mem_map.mp member
    obtain ⟨index, position⟩ := List.mem_iff_getElem?.mp inside
    rw [List.getElem?_drop] at position
    have within := (List.getElem?_eq_some_iff.mp position).1
    rw [List.length_take] at within
    rw [List.getElem?_take_of_lt (by omega)] at position
    exact sending.short (by have behind := sending.behind; omega) position
  · rw [List.length_map, List.length_drop, List.length_take]
    exact Nat.mul_le_mul_right maxPay (by omega)

/-- Once nothing is sendable, the receiver has delivered every frame built. -/
theorem delivered_eq (sending : Sending heatshrink clock read a b s) {index : Nat}
    (idle : ∀ g ∈ a.link.win, a.link.sendable (clock index) g = false)
    (stopped : b.link.canDrain = false) (roomy : maxWin * maxPay < B) :
    s.delivered = s.built := by
  have flow := sending.flow
  have most := flow.protocol.delivered_le_built
  have behind := sending.behind
  have ahead := sending.ahead
  have recent := flow.protocol.window
  have count := sending.count_le
  by_contra different
  have held : s.held s.delivered :=
    (sending.has_built idle (by omega)).resolve_left (Nat.lt_irrefl _)
  have buffered := flow.receives.held _ held
  obtain ⟨-, cargo⟩ := flow.receives.of_holds flow.protocol buffered (by omega) (by omega)
  have short := sending.short (by omega) cargo
  have full : b.link.rRing.free < (b.link.rx (slotOf (UInt8.ofNat s.delivered))).buf.length := by
    simpa [Link.canDrain, flow.receives.next, buffered] using stopped
  unfold RingBuffer.free at full
  unfold maxWin at recent roomy
  unfold maxPay at roomy short count
  omega

end Sending

/-! ### The peer's turn -/

theorem KeepsMarks.all_acked {earlier later : List Frame} (keeps : KeepsMarks earlier later)
    (acked : ∀ f ∈ earlier, f.acked = true) : ∀ f ∈ later, f.acked = true := by
  induction keeps with
  | nil => exact acked
  | cons head _ inductionHypothesis =>
      rw [List.forall_mem_cons] at acked ⊢
      exact ⟨head.2.2 acked.1, inductionHypothesis acked.2⟩

/-- An ack of the whole window empties it, whatever the bitmap says. -/
theorem Link.ackProcess_all {RING : Nat} {link : Link RING} (bound : link.win.length ≤ maxWin)
    {ack : UInt8} (whole : ack = link.baseSeq + UInt8.ofNat link.win.length) (sack : UInt16) :
    (link.ackProcess ack sack).win = [] ∧ (link.ackProcess ack sack).baseSeq = ack := by
  have cum : (ack - link.baseSeq).toNat = link.win.length := by
    rw [whole, UInt8.add_comm, UInt8.add_sub_cancel, UInt8.toNat_ofNat', Nat.mod_eq_of_lt]
    unfold maxWin at bound
    omega
  have marked : ∀ f ∈ (link.markCumulative ack).win, f.acked = true := by
    simp only [markCumulative, cum]
    split
    · simp [markAcked]
    next empty =>
      have nothing : link.win = [] := List.eq_nil_of_length_eq_zero (by omega)
      simp [nothing]
  have all : ∀ f ∈ link.markedWindow ack sack, f.acked = true :=
    (keepsMarks_markSack ack sack _).all_acked marked
  have front : link.ackedFront ack sack = link.win.length := by
    rw [ackedFront, List.takeWhile_eq_self_iff.mpr all,
      length_eq_of_map_cargo (link.map_cargo_markedWindow ack sack)]
  rw [ackProcess_link, front, List.dropWhile_eq_nil_iff.mpr all]
  exact ⟨rfl, whole.symm⟩

theorem Link.accept_all {RING : Nat} {link : Link RING} (bound : link.win.length ≤ maxWin)
    {h : Header} (whole : h.ack = link.baseSeq + UInt8.ofNat link.win.length)
    (decoded : Option Bytes) :
    (link.accept h decoded).win = [] ∧ (link.accept h decoded).baseSeq = h.ack := by
  have acked := @ackProcess_all RING { link with
    rxCtrl := h.flags &&& ctrlMask, rxAux := h.aux, gotValidRx := true } bound h.ack whole h.sack
  rw [accept]
  split
  · obtain ⟨_, _, _, _, _, _, received⟩ := receiveData_link (ackProcess { link with
      rxCtrl := h.flags &&& ctrlMask, rxAux := h.aux, gotValidRx := true } h.ack h.sack) h.seq
      decoded
    rw [received]
    exact acked
  · exact acked

/-- The receiver has delivered all the sender framed, and expects the frame behind the
sender's window. -/
structure Arrived (a : End A) (b : End B) : Prop where
  quiet : a.air = [] ∧ b.air = []
  next : b.link.rxNext = a.link.baseSeq + UInt8.ofNat a.link.win.length
  bytes : b.read ++ b.link.rRing.contents = a.framed.flatten

namespace Arrived

variable {a : End A} {b : End B}

/-- The receiver changes nothing that was delivered. -/
theorem of_receiveView (arrived : Arrived a b) {other : End B} (quiet : other.air = [])
    (view : other.link.receiveView = b.link.receiveView) (read : other.read = b.read) :
    Arrived a other := by
  simp only [Link.receiveView, Prod.mk.injEq] at view
  exact ⟨⟨arrived.quiet.1, quiet⟩, by rw [view.2.1]; exact arrived.next, by
    rw [read, view.2.2]
    exact arrived.bytes⟩

/-- Any frame of the receiver empties the sender's window. -/
theorem hear (arrived : Arrived a b) (inverts : heatshrink.Inverts) (attuned : Attuned b a)
    (valid : a.link.Valid) (shortTag : b.link.cfg.tagLen.toNat ≤ tagMax)
    (known : a.link.peerEpoch = 0 ∨ a.link.peerEpoch = b.link.myEpoch) {sent : Link.TxResult B}
    {frame : Bytes} (encodes : b.link.Encodes heatshrink sent frame)
    (noWrap : b.link.txCtr64 ≤ sent.link.txCtr64) :
    (a.hear heatshrink frame).link.win = [] ∧ Arrived (a.hear heatshrink frame) b := by
  obtain ⟨source, cap, flags, seq, raw, seals, receive, base, short, encoded, counted⟩ := encodes
  obtain ⟨seeded, max, window, accepted⟩ := attuned.hears inverts shortTag known seals base short
    encoded (counted ▸ noWrap)
  have reported : (source.wireHeader heatshrink flags seq raw).ack =
      a.link.baseSeq + UInt8.ofNat a.link.win.length :=
    (congrArg (fun view => view.2.1) receive).trans arrived.next
  obtain ⟨empty, moved⟩ := @Link.accept_all A { a.link with
    peerEpoch := b.link.myEpoch, rxCtrInit := seeded, rxCtrMax := max, rxWindow := window }
    valid.send.inflight_le (source.wireHeader heatshrink flags seq raw) reported (some raw)
  rw [← accepted] at empty moved
  refine ⟨empty, arrived.quiet, ?_, arrived.bytes⟩
  change b.link.rxNext = (a.link.onRx heatshrink frame).link.baseSeq +
    UInt8.ofNat (a.link.onRx heatshrink frame).link.win.length
  rw [empty, moved, reported, arrived.next]
  exact (UInt8.add_zero _).symm

end Arrived

/-- Once nothing is sendable, all the sender framed has arrived. -/
theorem Sending.arrived {clock : Nat → UInt32} {read : Nat} {a : End A} {b : End B} {s : State}
    (sending : Sending heatshrink clock read a b s) {index : Nat}
    (idle : ∀ g ∈ a.link.win, a.link.sendable (clock index) g = false)
    (stopped : b.link.canDrain = false) (roomy : maxWin * maxPay < B) : Arrived a b := by
  have all := sending.delivered_eq idle stopped roomy
  have flow := sending.flow
  refine ⟨sending.quiet, ?_, ?_⟩
  · rw [flow.receives.next, all, ← flow.sends.length flow.protocol, flow.sends.base, ofNat_add]
  · rw [flow.receives.out, all, flow.sends.built, List.take_length]

/-- `NextTx` returns false only when nothing is sendable. -/
theorem Link.nextTx_idle {RING : Nat} {link : Link RING} (ready : TurnReady link)
    (heatshrink : Heatshrink) {cap : Nat} (fits : maxFrame ≤ cap) {now : UInt32}
    (stopped : (link.nextTx heatshrink cap now).frame = none) :
    (∀ g ∈ link.fillWindow.win, link.fillWindow.sendable now g = false) ∧
      link.nextTx heatshrink cap now = ⟨link.fillWindow, none, none⟩ := by
  have filled := ready.fillWindow
  rcases link.nextTx_cases heatshrink cap now with
    ⟨before, f, rest, split, -, -, result⟩ | ⟨-, -, result⟩ | ⟨idle, -, result⟩
  · obtain ⟨frame, sent, -⟩ := filled.sendFrame heatshrink fits now split
    rw [result, sent] at stopped
    cases stopped
  · obtain ⟨frame, encoded, -⟩ := encode_fits heatshrink
      { link.fillWindow with ackSentTurn := true, ackPending := false } fits
      filled.shortTag 0 0 (show ([] : Bytes).length ≤ maxPay from Nat.zero_le _)
    rw [result, encoded] at stopped
    cases stopped
  · exact ⟨idle, result⟩

namespace World

variable {cap : Nat} {w : World A B}

/-- A frame of `a` goes through the empty air. -/
theorem run_pass (quiet : w.a.air = []) {now : UInt32} {frame : Bytes}
    (produced : (w.a.link.nextTx heatshrink cap now).frame = some frame) :
    w.run heatshrink (pass .a cap now) =
      { a := { w.a with
          link := (w.a.link.nextTx heatshrink cap now).link
          framed := w.a.framed ++ End.newlyFramed w.a.link }
        b := w.b.hear heatshrink frame } := by
  simp only [run, pass, List.foldl_cons, List.foldl_nil, step, End.call, quiet, produced,
    Option.toList_some, List.nil_append]

/-- What `b` emits into the empty air reaches `a`. -/
theorem run_emit {c : Call} {frame : Bytes} (emitted : (w.b.call heatshrink c).air = [frame]) :
    w.run heatshrink [.call .b c, .deliver .b] =
      { a := w.a.hear heatshrink frame, b := { w.b.call heatshrink c with air := [] } } := by
  simp only [run, List.foldl_cons, List.foldl_nil, step, emitted]

namespace Paired

/-- At the start of the turn the receiver has read what it has delivered, and the sender
keeps nothing behind that. -/
theorem sending (paired : w.Paired heatshrink) {clock : Nat → UInt32} (clean : w.Clean clock)
    (roomy : decMax < B) :
    ∃ read s, Sending heatshrink clock read (w.a.call heatshrink .beginTurn) w.b s := by
  obtain ⟨_, _, linked⟩ := paired.linked
  obtain ⟨s, flow⟩ := linked.forth.flows
  have sends : Sends w.a.link.beginTurn w.a.framed s := by
    refine flow.sends.congr ?_ ?_ rfl <;> simp [Link.beginTurn, Frame.cargo]
  have empty : w.b.link.rRing.count = 0 := by
    rw [← RingBuffer.length_contents, clean.drained, List.length_nil]
  have missing : ¬s.held s.delivered := by
    intro held
    have buffered := flow.receives.held _ held
    have stopped := paired.forth.stopped
    have short := flow.receiver_valid.receive.decoded (slotOf (UInt8.ofNat s.delivered)) (by
      simp only [Link.holds, Bool.and_eq_true] at buffered
      exact buffered.1)
    simp only [Link.canDrain, flow.receives.next, buffered, Bool.true_and,
      decide_eq_false_iff_not, RingBuffer.free, empty] at stopped
    omega
  have behind : s.base ≤ s.delivered := by
    by_contra beyond
    exact (flow.protocol.dropped_has s.delivered (by omega)).elim (Nat.lt_irrefl _) missing
  refine ⟨s.delivered, s, flow.sender_congr flow.sender_valid.beginTurn sends rfl rfl rfl,
    clean.quiet, behind, Nat.le_refl _, ?_, ?_, ?_⟩
  · have out := flow.receives.out
    rw [clean.drained, List.append_nil] at out
    exact out
  · intro index f found marked
    obtain ⟨g, -, rfl⟩ := List.mem_map.mp (List.mem_of_getElem? found)
    cases marked
  · intro f member ever
    obtain ⟨g, old, rfl⟩ := List.mem_map.mp member
    exact Or.inr (clean.elapsed g old ever)

/-- After the sender's turn all it framed has arrived. -/
theorem arrived (paired : w.Paired heatshrink) (inverts : heatshrink.Inverts)
    (roomy : 17 * maxPay < B) (fits : maxFrame ≤ cap) {clock : Nat → UInt32}
    (clean : w.Clean clock) {actions : List Action}
    (ended : w.turn heatshrink .a cap clock = some actions)
    (noWrap : Run.Along (World.step heatshrink) (NoWrap heatshrink) w actions) :
    Arrived (w.run heatshrink actions).a (w.run heatshrink actions).b := by
  obtain ⟨rest, looped, rfl⟩ := Option.map_eq_some_iff.mp ended
  obtain ⟨read, s, start⟩ := paired.sending clean (by unfold decMax; unfold maxPay at *; omega)
  have begun : (w.step heatshrink (.call .a .beginTurn)).Paired heatshrink :=
    paired.step inverts noWrap.1
  obtain ⟨index, last, ⟨paired, s, sending⟩, stopped, reached⟩ := turnLoop_induction
    (motive := fun _ w => w.Paired heatshrink ∧ ∃ s, Sending heatshrink clock read w.a w.b s)
    (fun index w frame ⟨paired, s, sending⟩ produced noWrap => by
      refine ⟨paired.run inverts noWrap, ?_⟩
      obtain ⟨_, _, linked⟩ := paired.linked
      rw [run_pass sending.quiet.1 produced]
      exact sending.pass inverts paired.forth linked.back.known produced noWrap.1.1)
    looped noWrap.2 ⟨begun, s, start⟩
  obtain ⟨idle, result⟩ := Link.nextTx_idle paired.ready.1 heatshrink fits stopped
  obtain ⟨built, filled⟩ := sending.fillWindow
  have arrived := filled.arrived idle paired.forth.stopped (by unfold maxWin; omega)
  have final : w.run heatshrink (.call .a .beginTurn :: rest) =
      last.step heatshrink (.call .a (.nextTx cap (clock index))) := reached
  rw [final]
  simp only [World.step, End.call, result, Option.toList_none, List.append_nil]
  exact arrived

/-- Whatever the peer emits reaches the sender and empties its window. -/
theorem emits (paired : w.Paired heatshrink) (inverts : heatshrink.Inverts)
    (arrived : Arrived w.a w.b) {c : Call} {sent : Link.TxResult B} {frame : Bytes}
    (encodes : w.b.link.Encodes heatshrink sent frame)
    (link : (w.b.call heatshrink c).link = sent.link)
    (emitted : (w.b.call heatshrink c).air = [frame])
    (view : (w.b.call heatshrink c).link.receiveView = w.b.link.receiveView)
    (read : (w.b.call heatshrink c).read = w.b.read)
    (noWrap : w.NoWrap heatshrink (.call .b c)) :
    (w.run heatshrink [.call .b c, .deliver .b]).a.link.win = [] ∧
      Arrived (w.run heatshrink [.call .b c, .deliver .b]).a
        (w.run heatshrink [.call .b c, .deliver .b]).b := by
  obtain ⟨_, _, linked⟩ := paired.linked
  obtain ⟨ready, readyPeer⟩ := paired.ready
  have counted : w.b.link.txCtr64 ≤ sent.link.txCtr64 := link ▸ noWrap.2
  obtain ⟨empty, heard⟩ := arrived.hear inverts paired.back ready.valid readyPeer.shortTag
    linked.forth.known encodes counted
  rw [run_emit emitted]
  exact ⟨empty, heard.of_receiveView rfl view read⟩

/-- A frame of the peer's `NextTx` arrives. -/
theorem emits_nextTx (paired : w.Paired heatshrink) (inverts : heatshrink.Inverts)
    (arrived : Arrived w.a w.b) {now : UInt32} {frame : Bytes}
    (produced : (w.b.link.nextTx heatshrink cap now).frame = some frame)
    (noWrap : w.NoWrap heatshrink (.call .b (.nextTx cap now))) :
    (w.run heatshrink (pass .b cap now)).a.link.win = [] ∧
      Arrived (w.run heatshrink (pass .b cap now)).a (w.run heatshrink (pass .b cap now)).b := by
  obtain ⟨_, _, _, _, _, _, _, _, _, sent⟩ := w.b.link.nextTx_link heatshrink cap now
  refine paired.emits inverts arrived (Link.nextTx_encodes paired.ready.2.valid produced) rfl ?_ ?_
    rfl noWrap
  · simp only [End.call, arrived.quiet.2, produced, Option.toList_some, List.nil_append]
  · rw [End.call, sent]
    rfl

/-- A poll of the peer arrives. -/
theorem emits_makePoll (paired : w.Paired heatshrink) (inverts : heatshrink.Inverts)
    (fits : maxFrame ≤ cap) (arrived : Arrived w.a w.b)
    (noWrap : w.NoWrap heatshrink (.call .b (.makePoll cap))) :
    (w.run heatshrink [.call .b (.makePoll cap), .deliver .b]).a.link.win = [] ∧
      Arrived (w.run heatshrink [.call .b (.makePoll cap), .deliver .b]).a
        (w.run heatshrink [.call .b (.makePoll cap), .deliver .b]).b := by
  obtain ⟨frame, produced, -⟩ := Link.encode_fits heatshrink w.b.link fits
    paired.ready.2.shortTag 0 0 (show ([] : Bytes).length ≤ maxPay from Nat.zero_le _)
  obtain ⟨ctr, persist, sent⟩ := w.b.link.encode_link heatshrink cap 0 0 []
  refine paired.emits inverts arrived (Link.makePoll_encodes produced) rfl ?_ ?_ rfl noWrap
  · simp only [End.call, Link.makePoll, arrived.quiet.2, produced, Option.toList_some,
      List.nil_append]
  · rw [End.call, Link.makePoll, sent]
    rfl

/-- `NextTx` at the peer returns false and leaves what was delivered alone. -/
theorem arrived_nextTx (arrived : Arrived w.a w.b) {now : UInt32}
    (stopped : (w.b.link.nextTx heatshrink cap now).frame = none) :
    Arrived w.a (w.b.call heatshrink (.nextTx cap now)) := by
  obtain ⟨_, _, _, _, _, _, _, _, _, sent⟩ := w.b.link.nextTx_link heatshrink cap now
  refine arrived.of_receiveView ?_ ?_ rfl
  · simp only [End.call, stopped, arrived.quiet.2, Option.toList_none, List.append_nil]
  · rw [End.call, sent]
    rfl

/-- The peer's turn empties the sender's window. -/
theorem cleared (paired : w.Paired heatshrink) (inverts : heatshrink.Inverts)
    (fits : maxFrame ≤ cap) (arrived : Arrived w.a w.b) {clock : Nat → UInt32}
    {actions : List Action} (ended : w.answer heatshrink .b cap clock = some actions)
    (noWrap : Run.Along (World.step heatshrink) (NoWrap heatshrink) w actions) :
    (w.run heatshrink actions).Cleared := by
  obtain ⟨turn, took, rfl⟩ := Option.map_eq_some_iff.mp ended
  obtain ⟨rest, looped, rfl⟩ := Option.map_eq_some_iff.mp took
  have turned : Run.Along (World.step heatshrink) (NoWrap heatshrink) w
      (.call .b .beginTurn :: rest) := by
    split at noWrap
    · exact (Run.along_append.mp noWrap).1
    · exact noWrap
  -- A poll is needed only if `NextTx` returns false at once: any frame empties the window.
  obtain ⟨index, last, ⟨_, arrivedLast, progress⟩, stopped, reached⟩ := turnLoop_induction
    (motive := fun index v => v.Paired heatshrink ∧ Arrived v.a v.b ∧
      (index = 0 ∧ v = w.step heatshrink (.call .b .beginTurn) ∨ v.a.link.win = []))
    (fun index v frame ⟨paired, arrived, _⟩ produced noWrap => by
      obtain ⟨empty, heard⟩ := paired.emits_nextTx inverts arrived produced noWrap.1
      exact ⟨paired.run inverts noWrap, heard, Or.inr empty⟩)
    looped turned.2
    ⟨paired.step inverts turned.1, arrived.of_receiveView arrived.quiet.2 rfl rfl, Or.inl ⟨rfl, rfl⟩⟩
  have final : w.run heatshrink (.call .b .beginTurn :: rest) =
      last.step heatshrink (.call .b (.nextTx cap (clock index))) := reached
  have waiting : Arrived (w.run heatshrink (.call .b .beginTurn :: rest)).a
      (w.run heatshrink (.call .b .beginTurn :: rest)).b := by
    rw [final]
    exact arrived_nextTx arrivedLast stopped
  split
  next silent =>
    rw [silent, Run.along_append] at noWrap
    obtain ⟨empty, heard⟩ := (paired.run inverts turned).emits_makePoll inverts fits waiting noWrap.2.1
    rw [World.run, List.foldl_append]
    exact ⟨empty, heard.bytes⟩
  next frame produced =>
    refine ⟨?_, waiting.bytes⟩
    rw [final]
    refine progress.resolve_left ?_
    rintro ⟨rfl, rfl⟩
    rw [stopped] at produced
    cases produced

end Paired

/-- Between two ends initialised for each other, after any interleaving of calls,
arrivals and losses that leaves nothing in flight: one clean exchange ends, and unless a
frame counter wraps it empties the send window and delivers every byte the sender
framed. -/
theorem exchange_clears (inverts : heatshrink.Inverts) (positive : 0 < A)
    (roomy : 17 * maxPay < B) (memoryA : Link A) (memoryB : Link B) (configA configB : Config)
    (forth : (memoryA.init configA).Matches (memoryB.init configB))
    (back : (memoryB.init configB).Matches (memoryA.init configA)) (actions : List Action)
    {cap : Nat} (fits : maxFrame ≤ cap) (clockA clockB : Nat → UInt32)
    (clean : ((start memoryA memoryB configA configB).run heatshrink actions).Clean clockA) :
    let w := (start memoryA memoryB configA configB).run heatshrink actions
    ∃ turns, w.exchange heatshrink cap clockA clockB = some turns ∧
      (Run.Along (step heatshrink) (NoWrap heatshrink)
          (start memoryA memoryB configA configB) (actions ++ turns) →
        (w.run heatshrink turns).Cleared) := by
  intro w
  have started : (start memoryA memoryB configA configB).Paired heatshrink :=
    .start positive (by omega) memoryA memoryB forth back
  obtain ⟨first, ended⟩ : ∃ first, w.turn heatshrink .a cap clockA = some first :=
    turn_completes fits (ready_run heatshrink started.ready actions) .a
  obtain ⟨turn, took⟩ : ∃ turn, (w.run heatshrink first).turn heatshrink .b cap clockB = some turn :=
    turn_completes fits (ready_run heatshrink (ready_run heatshrink started.ready actions) first) .b
  obtain ⟨second, answered⟩ : ∃ second,
      (w.run heatshrink first).answer heatshrink .b cap clockB = some second :=
    ⟨_, by rw [answer, took]; rfl⟩
  refine ⟨first ++ second, by rw [exchange, ended]; simp only [answered, Option.map_some], ?_⟩
  intro noWrap
  obtain ⟨reached, exchanged⟩ := Run.along_append.mp noWrap
  obtain ⟨sent, heard⟩ := Run.along_append.mp exchanged
  have paired : w.Paired heatshrink := started.run inverts reached
  have arrived := paired.arrived inverts roomy fits clean ended sent
  rw [run, List.foldl_append]
  exact (paired.run inverts sent).cleared inverts fits arrived answered heard

/-- Frame 0 is lost, frame 1 arrives early and is acked past the gap, and frame 2 is not
yet cut off the send ring. -/
def gapActions : List Action :=
  [.call .a (.write [1]), .call .a (.nextTx maxFrame 0), .lose .a 0, .call .a (.write [2]),
    .call .a (.nextTx maxFrame 5), .deliver .a, .call .b (.makePoll maxFrame), .deliver .b,
    .call .a (.write [3])]

/-- Both ends in zeroed memory, the sender's counter at `ctr`. -/
def pairStart (ctr : UInt64) : World 64 4096 :=
  start (Link.zeroed .default) (Link.zeroed .default) { pairConfig 1 2 7 with startCtr := ctr }
    (pairConfig 2 1 9)

theorem exchange_clears_gap :
    ∃ turns, ((pairStart 0).run .copying gapActions).exchange .copying maxFrame
        (fun _ => 2000) (fun _ => 2000) = some turns ∧
      (((pairStart 0).run .copying gapActions).run .copying turns).Cleared := by
  obtain ⟨turns, exchanged, clears⟩ := exchange_clears Heatshrink.copying_inverts
    (show 0 < 64 by decide) (show 17 * maxPay < 4096 by decide) (Link.zeroed .default)
    (Link.zeroed .default) { pairConfig 1 2 7 with startCtr := 0 } (pairConfig 2 1 9)
    (by constructor <;> decide) (by constructor <;> decide) gapActions (Nat.le_refl maxFrame)
    (fun _ => 2000) (fun _ => 2000)
    ⟨by decide +kernel, fun f member ever _ => by
      revert f
      decide +kernel, by decide +kernel⟩
  refine ⟨turns, exchanged, clears ?_⟩
  have every : ∀ turns ∈ ((pairStart 0).run .copying gapActions).exchange .copying maxFrame
      (fun _ => 2000) (fun _ => 2000), Run.Along (step .copying) (NoWrap .copying) (pairStart 0)
        (gapActions ++ turns) := by
    decide +kernel
  exact every turns exchanged

/-- Frame 0 goes out under the last counter before the wrap and arrives; its ack is owed. -/
def lastActions : List Action :=
  [.call .a (.write [7]), .call .a (.nextTx maxFrame 0), .deliver .a, .call .b (.read 9),
    .call .a (.write [8, 9])]

/-- In the exchange the counter wraps: the peer takes the new frame for a replay, and it
stays in the window. -/
theorem exchange_keeps_wrapped :
    (pairStart (0 - 2)).a.link.Matches (pairStart (0 - 2)).b.link ∧
      (pairStart (0 - 2)).b.link.Matches (pairStart (0 - 2)).a.link ∧ 17 * maxPay < 4096 ∧
      ((pairStart (0 - 2)).run .copying lastActions).Clean (fun _ => 2000) ∧
      ∃ turns, ((pairStart (0 - 2)).run .copying lastActions).exchange .copying maxFrame
          (fun _ => 2000) (fun _ => 2000) = some turns ∧
        (((pairStart (0 - 2)).run .copying lastActions).run .copying turns).a.link.win.map
          Frame.raw = [[8, 9]] ∧
        ¬(((pairStart (0 - 2)).run .copying lastActions).run .copying turns).Cleared := by
  refine ⟨by constructor <;> decide, by constructor <;> decide, by decide, ?_, ?_⟩
  · refine ⟨by decide +kernel, fun f member ever _ => ?_, by decide +kernel⟩
    revert f
    decide +kernel
  · have kept : (((pairStart (0 - 2)).run .copying lastActions).exchange .copying maxFrame
        (fun _ => 2000) (fun _ => 2000)).map (fun turns =>
          (((pairStart (0 - 2)).run .copying lastActions).run .copying turns).a.link.win.map
            Frame.raw) = some [[8, 9]] := by
      decide +kernel
    obtain ⟨turns, exchanged, window⟩ := Option.map_eq_some_iff.mp kept
    refine ⟨turns, exchanged, window, fun cleared => ?_⟩
    rw [cleared.window] at window
    cases window

end World

end LoraSerial.LinkLayer
