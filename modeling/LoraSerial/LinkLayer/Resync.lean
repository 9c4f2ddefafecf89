import LoraSerial.LinkLayer.Reunion

/-!
Owns what a restart by `NewSession` or `Init` in a new epoch leads to. Until its peer
hears that epoch, the restarted end takes a frame of the old session whose sequence
byte fits the fresh window for one of the new session. Where no such frame arrives,
what the restarted end reads is a prefix of what the peer frames from then on.
-/

namespace LoraSerial.LinkLayer

open Library
open Library.SelectiveRepeat (State)

namespace Reunion

variable {A B : Nat} {heatshrink : Heatshrink}

/-- Two linked ends, of which one restarts in an epoch that neither its peer has on
record nor a frame of its earlier sessions carries. -/
structure Restarts (peer : End A) (before : End B) (link : Link B) : Prop where
  restarts : (before.link.Valid ∧ link = before.link.newSession) ∨
    ∃ c, 0 < B ∧ link = before.link.init c
  peer_valid : peer.link.Valid
  short_tag : peer.link.cfg.tagLen.toNat ≤ tagMax
  same_seal : link.sealSettings = peer.link.sealSettings
  linked : peer.link.peerEpoch ≠ 0
  unseen : peer.link.peerEpoch ≠ link.myEpoch
  foreign : ∀ bytes ∈ before.air, Foreign link.myEpoch bytes

theorem nextEpoch_ne (epoch : UInt8) : Link.nextEpoch epoch ≠ epoch := by
  unfold Link.nextEpoch
  split
  next wrapped =>
    rintro rfl
    exact absurd wrapped (by decide)
  next =>
    intro same
    have value := congrArg UInt8.toNat same
    rw [UInt8.toNat_add, UInt8.toNat_one] at value
    omega

/-- In a linked pair any restart in a changed epoch is one the peer has not seen,
`NewSession` at any time among them. -/
theorem restarts_of_linked {droppedA droppedB : Nat} {w : World A B}
    (linked : w.Linked heatshrink droppedA droppedB) (met : w.a.link.peerEpoch ≠ 0)
    {link : Link B}
    (restarts : link = w.b.link.newSession ∨ ∃ c, link = w.b.link.init c ∧
      link.sealSettings = w.b.link.sealSettings ∧ link.myEpoch ≠ w.b.link.myEpoch) :
    Restarts w.a w.b link := by
  obtain ⟨s, forth⟩ := linked.forth.flows
  obtain ⟨t, back⟩ := linked.back.flows
  have fresh : link.myEpoch ≠ w.b.link.myEpoch := by
    rcases restarts with rfl | ⟨c, -, -, fresh⟩
    · exact nextEpoch_ne w.b.link.myEpoch
    · exact fresh
  exact {
    restarts := by
      rcases restarts with rfl | ⟨c, rfl, -, -⟩
      · exact Or.inl ⟨linked.back.valid, rfl⟩
      · exact Or.inr ⟨c, linked.back.valid.ring_pos, rfl⟩
    peer_valid := linked.forth.valid
    short_tag := forth.short_tag
    same_seal := by
      rcases restarts with rfl | ⟨c, -, same, -⟩
      · exact forth.same_seal
      · exact same.trans forth.same_seal
    linked := met
    unseen := by
      rw [linked.forth.known.resolve_left met]
      exact fresh.symm
    foreign := by
      intro bytes member h body parsed
      obtain ⟨own, rest, ownParsed, epoch⟩ := back.epoch_of_air member
      obtain ⟨rfl, -⟩ := Prod.mk.inj (Option.some.inj (ownParsed.symm.trans parsed))
      rw [epoch]
      exact ⟨linked.back.epoch, fresh.symm⟩ }

theorem waiting_restart {peer : End A} {before : End B} {link : Link B}
    (restarts : Restarts peer before link) :
    (restart peer before link).Waiting heatshrink := by
  have valid : link.Valid := by
    rcases restarts.restarts with ⟨valid, rfl⟩ | ⟨c, positive, rfl⟩
    · exact valid.newSession
    · exact Link.valid_init positive before.link c
  have quiet : ∀ air, Quiet { End.fresh link with air := air } := by
    intro air
    rcases restarts.restarts with ⟨-, rfl⟩ | ⟨c, -, rfl⟩ <;>
      exact ⟨rfl, fun _ => rfl, RingBuffer.contents_clear before.link.rRing⟩
  refine ⟨restarts.unseen, restarts.linked, restarts.peer_valid, rfl, rfl, quiet _, before.air, [],
    (List.append_nil _).symm, restarts.foreign, State.silent 0, ?_⟩
  exact Flow.start (restarts.peer_valid.resync link.myEpoch) valid restarts.same_seal
    restarts.short_tag rfl rfl rfl rfl (quiet []) (by simp)

theorem run_cases (inverts : heatshrink.Inverts) {w : Reunion A B} {actions : List Action}
    (clean : w.CleanRun heatshrink actions)
    (phase : w.Waiting heatshrink ∨ w.Joined heatshrink) :
    (w.run heatshrink actions).Waiting heatshrink ∨
      (w.run heatshrink actions).Joined heatshrink := by
  induction actions generalizing w with
  | nil => exact phase
  | cons action rest inductionHypothesis =>
      refine inductionHypothesis clean.2 ?_
      rcases phase with waiting | joined
      · exact waiting.step clean.1
      · exact Or.inr (joined.step inverts clean.1)

/-- After a restart, in every run in which no frame of the old session that the
restarted end would buffer reaches it: what the restarted end reads is a prefix of
what the peer framed since it observed the new epoch, and the peer drops such a frame
only when the restarted end has it. -/
theorem resynced_run_restart (inverts : heatshrink.Inverts) {peer : End A} {before : End B}
    {link : Link B} (restarts : Restarts peer before link) {actions : List Action}
    (clean : (restart peer before link).CleanRun heatshrink actions) :
    let w := (restart peer before link).run heatshrink actions
    w.b.read <+: w.a.framed.flatten ∧ (w.Observed → Delivered w.a w.b) := by
  intro w
  have phase : w.Waiting heatshrink ∨ w.Joined heatshrink :=
    run_cases inverts clean (Or.inl (waiting_restart restarts))
  rcases phase with waiting | joined
  · obtain ⟨unread, -⟩ := List.append_eq_nil_iff.mp waiting.quiet.nothing
    rw [unread]
    exact ⟨List.nil_prefix, fun observed => absurd observed waiting.unobserved⟩
  · obtain ⟨s, flow⟩ := joined.flows
    exact ⟨flow.delivered.in_order, fun _ => flow.delivered⟩

/-! ### A frame of the old session -/

/-- The peer has heard the other end, and its first data frame is on the air. -/
def linkedRun : World 64 300 :=
  (World.start (Link.zeroed Config.default) (Link.zeroed Config.default)
    (World.pairConfig 1 2 7) (World.pairConfig 2 1 9)).run Heatshrink.copying
    [.call .b (.makePoll 255), .deliver .b, .call .a (.write [42]), .call .a (.nextTx 255 0)]

/-- The other end starts a new session at this moment. -/
def reunion : Reunion 64 300 :=
  restart linkedRun.a linkedRun.b linkedRun.b.link.newSession

theorem restarts_linkedRun : Restarts linkedRun.a linkedRun.b linkedRun.b.link.newSession :=
  restarts_of_linked
    (World.linked_run_start Heatshrink.copying_inverts (by decide) (by decide)
      (Link.zeroed Config.default) (Link.zeroed Config.default) (by rfl) (by decide) _)
    (by decide +kernel) (Or.inl rfl)

/-- The data frame arrives in the new session, fits the fresh window, and is read. -/
theorem stale_frame_read :
    Restarts linkedRun.a linkedRun.b linkedRun.b.link.newSession ∧
      (reunion.run Heatshrink.copying [.deliver .a, .call .b (.read 9)]).b.read = [42] ∧
      ¬((reunion.run Heatshrink.copying [.deliver .a, .call .b (.read 9)]).b.read <+:
        (reunion.run Heatshrink.copying [.deliver .a, .call .b (.read 9)]).a.framed.flatten) :=
  ⟨restarts_linkedRun, by decide +kernel, by decide +kernel⟩

/-- The data frame is lost, the peer hears the new epoch, and sends again. -/
def cleanActions : List Action :=
  [.lose .a 0, .call .b (.makePoll 255), .deliver .b, .call .a (.write [7, 8]),
    .call .a (.nextTx 255 0), .deliver .a, .call .b (.read 9)]

theorem resynced_run_restart_clean :
    (reunion.run Heatshrink.copying cleanActions).b.read <+:
        (reunion.run Heatshrink.copying cleanActions).a.framed.flatten ∧
      ((reunion.run Heatshrink.copying cleanActions).Observed →
        Delivered (reunion.run Heatshrink.copying cleanActions).a
          (reunion.run Heatshrink.copying cleanActions).b) := by
  have clean : (restart linkedRun.a linkedRun.b linkedRun.b.link.newSession).CleanRun
      Heatshrink.copying cleanActions := by
    decide +kernel
  unfold reunion
  exact resynced_run_restart Heatshrink.copying_inverts restarts_linkedRun clean

example : (reunion.run Heatshrink.copying cleanActions).Observed ∧
    (reunion.run Heatshrink.copying cleanActions).b.read = [7, 8] := by
  decide +kernel

end Reunion

end LoraSerial.LinkLayer
