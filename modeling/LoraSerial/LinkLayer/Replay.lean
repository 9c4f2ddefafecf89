import LoraSerial.Library.ReplayWindow
import LoraSerial.LinkLayer.Footprint

/-!
Owns replay safety over whole runs between two `Init` calls: the nonces accepted
so far and the epochs recorded so far, along any sequence of calls with any frames.
While every epoch change goes to an epoch not recorded before, no nonce is accepted
twice. Nothing is assumed about who made the frames.
-/

namespace LoraSerial.LinkLayer

open Library Library.WordBytes

/-- Source address, epoch and counter of a sealed frame. -/
abbrev Nonce := UInt8 × UInt8 × UInt64

def frameNonce (input : Bytes) : Option Nonce :=
  match parseHeader input with
  | none => none
  | some (h, body) => some (h.src, h.epoch, loadBe (body.take ctrW))

namespace Link

variable {RING : Nat}

/-! ### The replay window of a link -/

def replayWindow (link : Link RING) : ReplayWindow where
  seeded := link.rxCtrInit
  max := link.rxCtrMax
  mask := link.rxWindow

/-- What replay safety depends on. -/
def guardState (link : Link RING) : Bool × ReplayWindow × UInt8 :=
  (link.cfg.encrypt, link.replayWindow, link.peerEpoch)

theorem replayOk_eq (link : Link RING) (ctr : UInt64) :
    link.replayOk ctr =
      ((link.replayWindow.check ctr).1,
        { link with
          rxCtrInit := (link.replayWindow.check ctr).2.seeded
          rxCtrMax := (link.replayWindow.check ctr).2.max
          rxWindow := (link.replayWindow.check ctr).2.mask }) := by
  cases seeded : link.rxCtrInit with
  | false => simp [replayOk, ReplayWindow.check, replayWindow, seeded]
  | true =>
      by_cases above : link.rxCtrMax < ctr
      · simp [replayOk, ReplayWindow.check, replayWindow, seeded, above]
      · by_cases old : 64 ≤ link.rxCtrMax - ctr
        · simp [replayOk, ReplayWindow.check, replayWindow, seeded, above, old]
          rw [← seeded]
        · by_cases marked : link.rxWindow &&& ((1 : UInt64) <<< (link.rxCtrMax - ctr)) = 0
          · simp [replayOk, ReplayWindow.check, replayWindow, seeded, above, old, marked]
          · simp [replayOk, ReplayWindow.check, replayWindow, seeded, above, old, marked]
            rw [← seeded]

theorem replayWindow_replayOk (link : Link RING) (ctr : UInt64) :
    (link.replayOk ctr).2.replayWindow = (link.replayWindow.check ctr).2 := by
  rw [replayOk_eq]
  rfl

/-! ### Calls that leave it alone -/

theorem guardState_write (link : Link RING) (d : Bytes) :
    (link.write d).2.guardState = link.guardState := by
  obtain ⟨ring, written⟩ := link.write_link d
  rw [written]
  rfl

theorem guardState_encode (heatshrink : Heatshrink) (link : Link RING) (cap : Nat)
    (flags seq : UInt8) (raw : Bytes) :
    (link.encode heatshrink cap flags seq raw).link.guardState = link.guardState := by
  obtain ⟨ctr, persist, encoded⟩ := link.encode_link heatshrink cap flags seq raw
  rw [encoded]
  rfl

theorem guardState_nextTx (heatshrink : Heatshrink) (link : Link RING) (cap : Nat)
    (now : UInt32) : (link.nextTx heatshrink cap now).link.guardState = link.guardState := by
  obtain ⟨_, _, _, _, _, _, _, _, _, sent⟩ := link.nextTx_link heatshrink cap now
  rw [sent]
  rfl

theorem guardState_read (link : Link RING) (max : Nat) :
    (link.read max).2.guardState = link.guardState := by
  obtain ⟨_, _, _, _, _, taken⟩ := link.read_link max
  rw [taken]
  rfl

theorem guardState_accept (link : Link RING) (h : Header) (decoded : Option Bytes) :
    (link.accept h decoded).guardState = link.guardState := by
  obtain ⟨_, _, _, _, _, _, _, _, _, _, accepted⟩ := link.accept_link h decoded
  rw [accepted]
  rfl

/-! ### Authentication and the window -/

theorem ctr_splitSealed {tagLen : Nat} {input body : Bytes} {h : Header} {s : Sealed}
    (cut : splitSealed tagLen input h body = some s) : s.ctr = loadBe (body.take ctrW) := by
  unfold splitSealed at cut
  split at cut
  · cases cut
  · dsimp only at cut
    split at cut <;> cases cut
    rfl

/-- Only the counter of a sealed frame enters the replay window. -/
theorem replayWindow_authenticate (heatshrink : Heatshrink) (link : Link RING) (input : Bytes)
    (h : Header) (body : Bytes) :
    (link.authenticate heatshrink input h body).1.replayWindow = link.replayWindow ∨
      hasFlag h.flags fEnc = true ∧
        (link.authenticate heatshrink input h body).1.replayWindow =
          (link.replayWindow.check (loadBe (body.take ctrW))).2 := by
  unfold authenticate
  split
  · exact Or.inl rfl
  · split
    next sealedFrame =>
      cases cut : splitSealed link.cfg.tagLen.toNat input h body with
      | none => exact Or.inl rfl
      | some s =>
          have checked : (link.replayOk s.ctr).2.replayWindow =
              (link.replayWindow.check (loadBe (body.take ctrW))).2 := by
            rw [replayWindow_replayOk, ctr_splitSealed cut]
          have opened : (link.aeadOpen heatshrink h s).1 = link ∨
              (link.aeadOpen heatshrink h s).1 = (link.replayOk s.ctr).2 := by
            unfold aeadOpen
            split
            · exact Or.inl rfl
            · split
              · exact Or.inl rfl
              · dsimp only
                split
                · split <;> exact Or.inr rfl
                · exact Or.inr rfl
          dsimp only
          rcases opened with same | counted
          · left
            split <;> exact congrArg replayWindow same
          · right
            refine ⟨sealedFrame, ?_⟩
            split <;> exact (congrArg replayWindow counted).trans checked
    · exact Or.inl rfl

/-- With encryption on, authentication either refuses the frame and leaves the
link alone, or has accepted the frame's counter into the replay window. -/
theorem authenticate_cases (heatshrink : Heatshrink) (link : Link RING) (input : Bytes)
    (h : Header) (body : Bytes) (encrypts : link.cfg.encrypt = true) :
    ((link.authenticate heatshrink input h body).1.guardState = link.guardState ∧
        ∃ exit, (link.authenticate heatshrink input h body).2 = .error exit ∧
          exit ≠ .undecodable ∧ exit ≠ .accepted) ∨
      ((link.replayWindow.check (loadBe (body.take ctrW))).1 = true ∧
        (link.authenticate heatshrink input h body).1.guardState =
          (true, (link.replayWindow.check (loadBe (body.take ctrW))).2, link.peerEpoch)) := by
  unfold authenticate
  rw [encrypts]
  cases sealedFrame : hasFlag h.flags fEnc with
  | false => exact Or.inl ⟨rfl, .plaintext, rfl, by decide, by decide⟩
  | true =>
      simp only [Bool.not_true, Bool.and_false, Bool.false_eq_true, if_false, if_true]
      cases cut : splitSealed link.cfg.tagLen.toNat input h body with
      | none => exact Or.inl ⟨rfl, .malformed, rfl, by decide, by decide⟩
      | some s =>
          have counter := ctr_splitSealed cut
          simp only [aeadOpen]
          cases link.cfg.key with
          | none => exact Or.inl ⟨rfl, .noKey, rfl, by decide, by decide⟩
          | some key =>
              simp only
              cases ascon128Decrypt key (buildNonce h.src h.epoch s.ctr) s.ad s.ct s.tag with
              | none => exact Or.inl ⟨rfl, .badTag, rfl, by decide, by decide⟩
              | some buf =>
                  simp only [replayOk_eq, counter]
                  cases fresh : (link.replayWindow.check (loadBe (body.take ctrW))).1 with
                  | false =>
                      have same : (link.replayWindow.check (loadBe (body.take ctrW))).2 =
                          link.replayWindow := (ReplayWindow.check_of_refused fresh).2
                      refine Or.inl ⟨?_, .replayed, rfl, by decide, by decide⟩
                      simp only [Bool.false_eq_true, if_false, same]
                      rfl
                  | true =>
                      refine Or.inr ⟨rfl, ?_⟩
                      simp only [if_true]
                      cases decodePayload heatshrink h.flags buf <;>
                        simp only [guardState, encrypts] <;> rfl

/-- The nonce of a frame whose counter was accepted. -/
def acceptedNonce (heatshrink : Heatshrink) (link : Link RING) (input : Bytes) : Option Nonce :=
  if (link.onRx heatshrink input).exit = .accepted ∨
      (link.onRx heatshrink input).exit = .undecodable then
    frameNonce input
  else none

end Link

/-! ### Runs -/

/-- A receiving link with its history since `Init`: the recorded epochs and the
accepted nonces, latest first. -/
structure Receiver (RING : Nat) where
  link : Link RING
  epochs : List UInt8
  accepted : List Nonce

namespace Receiver

variable {RING : Nat}

def start (memory : Link RING) (c : Config) : Receiver RING where
  link := memory.init c
  epochs := [0]
  accepted := []

def step (heatshrink : Heatshrink) (receiver : Receiver RING) (op : Op) : Receiver RING where
  link := receiver.link.apply heatshrink op
  epochs := (receiver.link.apply heatshrink op).peerEpoch :: receiver.epochs
  accepted :=
    match op with
    | .onRx input =>
        (receiver.link.acceptedNonce heatshrink input).toList ++ receiver.accepted
    | _ => receiver.accepted

def run (heatshrink : Heatshrink) (receiver : Receiver RING) (ops : List Op) : Receiver RING :=
  ops.foldl (step heatshrink) receiver

/-- The call is not `Init`, and a frame that passes the address filter with
another epoch than the recorded one brings an epoch never recorded before. -/
def EpochFresh (receiver : Receiver RING) : Op → Prop
  | .init _ => False
  | .onRx input =>
      match parseHeader input with
      | none => True
      | some (h, _) =>
          receiver.link.filters h = false → h.epoch ≠ receiver.link.peerEpoch →
            h.epoch ∉ receiver.epochs
  | _ => True

instance (receiver : Receiver RING) (op : Op) : Decidable (receiver.EpochFresh op) := by
  unfold EpochFresh
  split
  · infer_instance
  · split <;> infer_instance
  · infer_instance

/-- Every call of the run meets the condition in the state it meets. -/
def FreshRun (heatshrink : Heatshrink) (receiver : Receiver RING) : List Op → Prop
  | [] => True
  | op :: rest => receiver.EpochFresh op ∧ FreshRun heatshrink (receiver.step heatshrink op) rest

instance decidableFreshRun (heatshrink : Heatshrink) (receiver : Receiver RING) :
    (ops : List Op) → Decidable (receiver.FreshRun heatshrink ops)
  | [] => .isTrue trivial
  | op :: rest =>
      have := decidableFreshRun heatshrink (receiver.step heatshrink op) rest
      inferInstanceAs
        (Decidable (receiver.EpochFresh op ∧ (receiver.step heatshrink op).FreshRun heatshrink rest))

/-- Accepted nonces are distinct, belong to recorded epochs, and those of the
current epoch are in the window. -/
structure ReplaySafe (receiver : Receiver RING) : Prop where
  encrypts : receiver.link.cfg.encrypt = true
  recorded : receiver.link.peerEpoch ∈ receiver.epochs
  epochs : ∀ nonce ∈ receiver.accepted, nonce.2.1 ∈ receiver.epochs
  seen : ∀ nonce ∈ receiver.accepted, nonce.2.1 = receiver.link.peerEpoch →
    receiver.link.replayWindow.Seen nonce.2.2
  nodup : receiver.accepted.Nodup

theorem replaySafe_start (memory : Link RING) {c : Config} (encrypts : c.encrypt = true) :
    (start memory c).ReplaySafe where
  encrypts := encrypts
  recorded := List.mem_singleton_self 0
  epochs := by simp [start]
  seen := by simp [start]
  nodup := List.nodup_nil

namespace ReplaySafe

variable {receiver : Receiver RING}

/-- Move on to a window of the recorded epoch that has seen everything accepted
under it, with at most one new nonce. -/
theorem extend (safe : receiver.ReplaySafe) {link : Link RING} {window : ReplayWindow}
    {epoch : UInt8} {latest : Option Nonce} (guard : link.guardState = (true, window, epoch))
    (seen : ∀ nonce ∈ receiver.accepted, nonce.2.1 = epoch → window.Seen nonce.2.2)
    (new : ∀ nonce, latest = some nonce →
      nonce.2.1 = epoch ∧ window.Seen nonce.2.2 ∧ nonce ∉ receiver.accepted) :
    ReplaySafe
      { link := link
        epochs := link.peerEpoch :: receiver.epochs
        accepted := latest.toList ++ receiver.accepted } := by
  have encrypts : link.cfg.encrypt = true := congrArg Prod.fst guard
  have sameWindow : link.replayWindow = window := congrArg (fun state => state.2.1) guard
  have sameEpoch : link.peerEpoch = epoch := congrArg (fun state => state.2.2) guard
  subst sameWindow sameEpoch
  cases latest with
  | none =>
      exact
        { encrypts := encrypts
          recorded := List.mem_cons_self
          epochs := fun nonce member => List.mem_cons_of_mem _ (safe.epochs nonce member)
          seen := seen
          nodup := safe.nodup }
  | some newest =>
      obtain ⟨current, newSeen, absent⟩ := new newest rfl
      refine
        { encrypts := encrypts
          recorded := List.mem_cons_self
          epochs := fun nonce member => ?_
          seen := fun nonce member same => ?_
          nodup := List.nodup_cons.mpr ⟨absent, safe.nodup⟩ }
      · rcases List.mem_cons.mp member with rfl | old
        · exact current ▸ List.mem_cons_self
        · exact List.mem_cons_of_mem _ (safe.epochs nonce old)
      · rcases List.mem_cons.mp member with rfl | old
        · exact newSeen
        · exact seen nonce old same

/-- A call that keeps the guard state and accepts nothing. -/
theorem of_guardState (safe : receiver.ReplaySafe) {link : Link RING}
    (same : link.guardState = receiver.link.guardState) :
    ReplaySafe { receiver with link := link, epochs := link.peerEpoch :: receiver.epochs } := by
  have guard : link.guardState =
      (true, receiver.link.replayWindow, receiver.link.peerEpoch) := by
    rw [same, Link.guardState, safe.encrypts]
  have kept := safe.extend guard safe.seen
    (fun nonce (absent : none = some nonce) => nomatch absent)
  exact kept

/-- After tracking a fresh or unchanged epoch, the accepted nonces of that epoch
are still in the window. -/
theorem seen_trackEpoch (safe : receiver.ReplaySafe) {epoch : UInt8}
    (fresh : epoch ≠ receiver.link.peerEpoch → epoch ∉ receiver.epochs) :
    (receiver.link.trackEpoch epoch).cfg.encrypt = true ∧
      (receiver.link.trackEpoch epoch).peerEpoch = epoch ∧
      ∀ nonce ∈ receiver.accepted, nonce.2.1 = epoch →
        (receiver.link.trackEpoch epoch).replayWindow.Seen nonce.2.2 := by
  have never : epoch ≠ receiver.link.peerEpoch → ∀ nonce ∈ receiver.accepted,
      nonce.2.1 ≠ epoch := by
    rintro changed nonce member rfl
    exact fresh changed (safe.epochs nonce member)
  rcases receiver.link.trackEpoch_cases epoch with ⟨tracked, -⟩ | ⟨tracked, -, changed⟩ <;>
    rw [tracked]
  · refine ⟨safe.encrypts, rfl, fun nonce member current => ?_⟩
    by_cases same : epoch = receiver.link.peerEpoch
    · exact safe.seen nonce member (current.trans same)
    · exact absurd current (never same nonce member)
  · exact ⟨safe.encrypts, rfl, fun nonce member current =>
      absurd current (never changed nonce member)⟩

theorem onRx (safe : receiver.ReplaySafe) (heatshrink : Heatshrink) {input : Bytes}
    (fresh : receiver.EpochFresh (.onRx input)) :
    (receiver.step heatshrink (.onRx input)).ReplaySafe := by
  have keep : (receiver.link.onRx heatshrink input).link = receiver.link →
      receiver.link.acceptedNonce heatshrink input = none →
      (receiver.step heatshrink (.onRx input)).ReplaySafe := by
    intro unchanged nothing
    have kept := safe.of_guardState (congrArg Link.guardState unchanged)
    simpa [Receiver.step, Link.apply, nothing] using kept
  cases parsed : parseHeader input with
  | none =>
      exact keep (by simp [Link.onRx, parsed]) (by simp [Link.acceptedNonce, Link.onRx, parsed])
  | some pair =>
      obtain ⟨h, body⟩ := pair
      simp only [EpochFresh, parsed] at fresh
      cases filtered : receiver.link.filters h with
      | true =>
          exact keep (by simp [Link.onRx, parsed, filtered])
            (by simp [Link.acceptedNonce, Link.onRx, parsed, filtered])
      | false =>
          obtain ⟨encrypts, epoch, seen⟩ := safe.seen_trackEpoch (fresh filtered)
          have nonceOf : ∀ nonce, receiver.link.acceptedNonce heatshrink input = some nonce →
              nonce = (h.src, h.epoch, loadBe (body.take ctrW)) := by
            intro nonce found
            unfold Link.acceptedNonce at found
            split at found
            · rw [frameNonce, parsed] at found
              exact (Option.some.inj found).symm
            · cases found
          rcases Link.authenticate_cases heatshrink _ input h body encrypts with
            ⟨guard, exit, rejected, decodable, refused⟩ | ⟨check, guard⟩
          · have nothing : receiver.link.acceptedNonce heatshrink input = none := by
              simp [Link.acceptedNonce, Link.onRx, parsed, filtered, rejected, decodable, refused]
            have guarded : (receiver.link.onRx heatshrink input).link.guardState =
                (true, (receiver.link.trackEpoch h.epoch).replayWindow, h.epoch) := by
              simp only [Link.onRx, parsed, filtered, rejected, Bool.false_eq_true, if_false]
              rw [guard, Link.guardState, encrypts, epoch]
            exact safe.extend guarded seen fun nonce found => by simp [nothing] at found
          · have guarded : (receiver.link.onRx heatshrink input).link.guardState =
                (true, ((receiver.link.trackEpoch h.epoch).replayWindow.check
                  (loadBe (body.take ctrW))).2, h.epoch) := by
              simp only [Link.onRx, parsed, filtered, Bool.false_eq_true, if_false]
              rw [epoch] at guard
              split
              · exact guard
              · exact (Link.guardState_accept _ _ _).trans guard
            refine safe.extend guarded
              (fun nonce member current => (seen nonce member current).check _) ?_
            intro nonce found
            obtain rfl := nonceOf nonce found
            refine ⟨rfl, ReplayWindow.seen_of_check check, fun member => ?_⟩
            have refused := ReplayWindow.check_of_seen (seen _ member rfl)
            rw [check] at refused
            cases refused

theorem step (safe : receiver.ReplaySafe) (heatshrink : Heatshrink) {op : Op}
    (fresh : receiver.EpochFresh op) : (receiver.step heatshrink op).ReplaySafe := by
  cases op with
  | init c => exact fresh.elim
  | newSession => exact safe.of_guardState rfl
  | setTiming window retransmitMs => exact safe.of_guardState rfl
  | write d => exact safe.of_guardState (Link.guardState_write _ d)
  | read max =>
      exact safe.of_guardState (Link.guardState_read _ max)
  | takeGotData => exact safe.of_guardState rfl
  | takePeerReset => exact safe.of_guardState rfl
  | takeValidRx => exact safe.of_guardState rfl
  | setCtrlTx bits => exact safe.of_guardState rfl
  | setAuxTx aux => exact safe.of_guardState rfl
  | beginTurn => exact safe.of_guardState rfl
  | nextTx cap now => exact safe.of_guardState (Link.guardState_nextTx heatshrink _ cap now)
  | makePoll cap => exact safe.of_guardState (Link.guardState_encode heatshrink _ cap 0 0 [])
  | onRx input => exact safe.onRx heatshrink fresh

theorem run (safe : receiver.ReplaySafe) (heatshrink : Heatshrink) {ops : List Op}
    (fresh : receiver.FreshRun heatshrink ops) : (receiver.run heatshrink ops).ReplaySafe := by
  induction ops generalizing receiver with
  | nil => exact safe
  | cons op rest inductionHypothesis =>
      exact inductionHypothesis (safe.step heatshrink fresh.1) fresh.2

end ReplaySafe

/-- Between two `Init` calls, in a run whose epoch changes all go to epochs not
recorded before, no nonce is accepted twice. -/
theorem accepted_nodup (heatshrink : Heatshrink) (memory : Link RING) {c : Config}
    (encrypts : c.encrypt = true) {ops : List Op}
    (fresh : (start memory c).FreshRun heatshrink ops) :
    ((start memory c).run heatshrink ops).accepted.Nodup :=
  ((replaySafe_start memory encrypts).run heatshrink fresh).nodup

/-! ### A recorded epoch that comes back -/

def sharedKeyConfig (addr epoch : UInt8) : Config :=
  { Config.default with
    addr := addr
    encrypt := true
    key := some (Vector.replicate 16 0x5A)
    epoch := epoch }

/-- One poll sealed by end 2 in its epoch 9. -/
def sealedPoll : Bytes :=
  ((((Link.zeroed Config.default : Link 64).init (sharedKeyConfig 2 9)).makePoll
    Heatshrink.copying 255).frame).getD []

/-- An unauthenticated header that claims an epoch of end 2. -/
def forgedHeader (epoch : UInt8) : Bytes :=
  [2, 1, 0, 0, 0, epoch, 0, 0, 0, 0]

/-- A forged epoch between a sealed frame and its copy re-seeds the window, and
the copy is accepted again. -/
theorem replayed_after_forged_epoch :
    ((start (Link.zeroed Config.default : Link 64) (sharedKeyConfig 1 1)).run Heatshrink.copying
      [.onRx sealedPoll, .onRx (forgedHeader 5), .onRx sealedPoll]).accepted =
        [(2, 9, 1), (2, 9, 1)] ∧
      ¬((start (Link.zeroed Config.default : Link 64) (sharedKeyConfig 1 1)).run
        Heatshrink.copying
        [.onRx sealedPoll, .onRx (forgedHeader 5), .onRx sealedPoll]).accepted.Nodup := by
  decide +kernel

/-- Without the forged epoch the copy is refused. -/
theorem accepted_nodup_replayed :
    ((start (Link.zeroed Config.default : Link 64) (sharedKeyConfig 1 1)).run Heatshrink.copying
      [.onRx sealedPoll, .onRx sealedPoll]).accepted.Nodup :=
  accepted_nodup Heatshrink.copying (Link.zeroed Config.default) rfl (by decide +kernel)

end Receiver

end LoraSerial.LinkLayer
