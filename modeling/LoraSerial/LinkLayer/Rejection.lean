import LoraSerial.LinkLayer.Operation

/-!
Owns what a rejected frame leaves behind. Authentication itself changes nothing
when it rejects, but epoch tracking runs before it, on the unauthenticated header:
a rejected frame leaves the link as it was exactly when it never reaches epoch
tracking or carries the recorded epoch.
-/

namespace LoraSerial.LinkLayer

/-- Returns of `OnRx` that reject the frame: too short or not addressed here,
plaintext on an encrypted link, malformed length, bad tag, or refused counter. -/
def RxExit.Rejects : RxExit → Prop
  | .tooShort | .filtered | .plaintext | .malformed | .badTag | .replayed => True
  | .noKey | .undecodable | .accepted => False

instance : DecidablePred RxExit.Rejects := fun exit => by
  cases exit <;> unfold RxExit.Rejects <;> infer_instance

namespace Link

variable {RING : Nat}

theorem replayOk_refused {link : Link RING} {ctr : UInt64}
    (refused : (link.replayOk ctr).1 = false) : (link.replayOk ctr).2 = link := by
  simp only [replayOk] at refused ⊢
  split at refused
  · cases refused
  next seeded =>
    rw [if_neg seeded]
    split at refused
    · cases refused
    next old =>
      rw [if_neg old]
      split at refused
      next tooOld => rw [if_pos tooOld]
      next recent =>
        rw [if_neg recent]
        split at refused
        next seen => rw [if_pos seen]
        · cases refused

theorem aeadOpen_rejects {heatshrink : Heatshrink} {link : Link RING} {h : Header} {s : Sealed}
    {exit : RxExit} (rejected : (link.aeadOpen heatshrink h s).2 = .error exit)
    (rejects : exit.Rejects) : (link.aeadOpen heatshrink h s).1 = link := by
  unfold aeadOpen at rejected ⊢
  split
  · rfl
  next key keyed =>
    simp only [keyed] at rejected
    split
    · rfl
    next buf opened =>
      simp only [opened] at rejected
      by_cases fresh : (link.replayOk s.ctr).1 = true
      · rw [if_pos fresh] at rejected
        split at rejected <;> cases rejected
        exact rejects.elim
      · simp only [if_neg fresh]
        exact replayOk_refused (by simpa using fresh)

/-- A rejecting authentication leaves the link as it was. -/
theorem authenticate_rejects {heatshrink : Heatshrink} {link : Link RING} {input : Bytes}
    {h : Header} {body : Bytes} {exit : RxExit}
    (rejected : (link.authenticate heatshrink input h body).2 = .error exit)
    (rejects : exit.Rejects) : (link.authenticate heatshrink input h body).1 = link := by
  unfold authenticate at rejected ⊢
  split
  · rfl
  next encrypted =>
    rw [if_neg encrypted] at rejected
    split
    next sealedFrame =>
      rw [if_pos sealedFrame] at rejected
      split
      · rfl
      next s cut =>
        simp only [cut] at rejected
        cases opened : (link.aeadOpen heatshrink h s).2 with
        | error reason =>
            simp only [opened] at rejected ⊢
            cases rejected
            exact aeadOpen_rejects opened rejects
        | ok payload => simp [opened] at rejected
    next => rfl

/-- Tracking an epoch changes the link unless the epoch is the recorded one. -/
theorem trackEpoch_eq_iff (link : Link RING) (epoch : UInt8) :
    link.trackEpoch epoch = link ↔ epoch = link.peerEpoch := by
  have recorded : (link.trackEpoch epoch).peerEpoch = epoch := by
    unfold trackEpoch
    split
    · rfl
    · split
      · rfl
      next same => exact (not_not.mp same).symm
  constructor
  · intro unchanged
    rw [← recorded, unchanged]
  · rintro rfl
    unfold trackEpoch
    split
    · rfl
    · rw [if_neg (not_not.mpr rfl)]

/-- The frame stops before epoch tracking, or carries the recorded epoch. -/
def KeepsEpoch (link : Link RING) (input : Bytes) : Prop :=
  match parseHeader input with
  | none => True
  | some (h, _) => link.filters h = true ∨ h.epoch = link.peerEpoch

/-- A rejected frame leaves the whole link as it was if and only if it keeps the
epoch. -/
theorem onRx_rejected_eq_iff (heatshrink : Heatshrink) (link : Link RING) (input : Bytes)
    (rejects : (link.onRx heatshrink input).exit.Rejects) :
    (link.onRx heatshrink input).link = link ↔ link.KeepsEpoch input := by
  unfold onRx KeepsEpoch at *
  cases parsed : parseHeader input with
  | none => simp
  | some pair =>
      obtain ⟨h, body⟩ := pair
      simp only [parsed] at rejects ⊢
      by_cases filtered : link.filters h = true
      · simp [filtered]
      · simp only [filtered] at rejects ⊢
        cases authentic :
            ((link.trackEpoch h.epoch).authenticate heatshrink input h body).2 with
        | ok decoded =>
            simp only [authentic] at rejects
            exact rejects.elim
        | error exit =>
            simp only [authentic] at rejects ⊢
            have unchanged := authenticate_rejects authentic rejects
            simp [unchanged, trackEpoch_eq_iff]

/-- Encryption with a key, peer unknown. -/
def encryptedConfig : Config :=
  { Config.default with encrypt := true, key := some (Vector.replicate 16 0x5A) }

/-- A plaintext frame that claims `epoch`. -/
def forgedEpoch (epoch : UInt8) : Bytes :=
  [7, 1, 0, 0, 0, epoch, 0, 0, 0, 0]

/-- An end with one frame in flight that has heard one frame of epoch 3. -/
def sendingEnd : Link 64 :=
  (zeroed Config.default).init encryptedConfig |>.run Heatshrink.copying
    [.write [1, 2, 3], .nextTx 255 0, .onRx (forgedEpoch 3)]

/-- A rejected plaintext frame with another epoch drops the frame in flight. -/
theorem forgedEpoch_clears_window :
    sendingEnd.cfg.encrypt = true ∧ sendingEnd.cfg.key.isSome = true ∧
      (sendingEnd.onRx Heatshrink.copying (forgedEpoch 4)).exit = .plaintext ∧
      sendingEnd.win.length = 1 ∧
      (sendingEnd.onRx Heatshrink.copying (forgedEpoch 4)).link.win.length = 0 ∧
      (sendingEnd.onRx Heatshrink.copying (forgedEpoch 4)).link ≠ sendingEnd := by
  refine ⟨by decide, by decide, by decide, by decide, by decide, ?_⟩
  intro unchanged
  have lengths := congrArg (fun link : Link 64 => link.win.length) unchanged
  exact absurd lengths (by decide)

/-- The same frame with the recorded epoch changes nothing. -/
theorem forgedEpoch_repeated :
    (sendingEnd.onRx Heatshrink.copying (forgedEpoch 3)).link = sendingEnd :=
  (onRx_rejected_eq_iff Heatshrink.copying sendingEnd (forgedEpoch 3) (by decide)).mpr
    (Or.inr (by decide))

end Link

end LoraSerial.LinkLayer
