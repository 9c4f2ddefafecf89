import LoraSerial.Device.ModeControl
import LoraSerial.LinkLayer.Footprint

/-!
Owns the loss statistics that the adaptive data rate reads: the two counters of the
link, what each kind of mode change does to them, and the ratio `DriveAdr` hands to
the controller. Does not own the controller's decision: its requests and aborts are
steps of the mode-switch engine.
-/

namespace LoraSerial.LinkLayer.Link

variable {RING : Nat}

/-- The window frame the next `NextTx` sends. -/
def picked (link : Link RING) (now : UInt32) : Option Frame :=
  (link.fillWindow.win.zipIdx.find? fun entry => link.fillWindow.sendable now entry.1).map Prod.fst

theorem stats_encode (heatshrink : Heatshrink) (link : Link RING) (cap : Nat)
    (flags seq : UInt8) (raw : Bytes) :
    (link.encode heatshrink cap flags seq raw).link.statTx = link.statTx ∧
      (link.encode heatshrink cap flags seq raw).link.statRetx = link.statRetx := by
  obtain ⟨ctr, persist, encoded⟩ := link.encode_link heatshrink cap flags seq raw
  rw [encoded]
  exact ⟨rfl, rfl⟩

theorem stats_fillWindow (link : Link RING) :
    link.fillWindow.statTx = link.statTx ∧ link.fillWindow.statRetx = link.statRetx := by
  obtain ⟨ring, win, next, filled⟩ := link.fillWindow_link
  rw [filled]
  exact ⟨rfl, rfl⟩

/-- `NextTx` counts the data frame it sends, and once more when it is a resend. -/
theorem stats_nextTx (heatshrink : Heatshrink) (link : Link RING) (cap : Nat) (now : UInt32) :
    (link.nextTx heatshrink cap now).link.statTx =
        (if (link.picked now).isSome then link.statTx + 1 else link.statTx) ∧
      (link.nextTx heatshrink cap now).link.statRetx =
        (if (link.picked now).any (·.everSent) then link.statRetx + 1 else link.statRetx) := by
  obtain ⟨sent, resent⟩ := link.stats_fillWindow
  unfold nextTx picked
  dsimp only
  cases found : link.fillWindow.win.zipIdx.find? _ with
  | none =>
      dsimp only [Option.map_none]
      split
      · obtain ⟨lone, loneResent⟩ := stats_encode heatshrink
          { link.fillWindow with ackSentTurn := true, ackPending := false } cap 0 0 []
        exact ⟨lone.trans sent, loneResent.trans resent⟩
      · exact ⟨sent, resent⟩
  | some entry =>
      obtain ⟨f, pick⟩ := entry
      dsimp only [sendFrame]
      obtain ⟨data, dataResent⟩ := stats_encode heatshrink (link.fillWindow.markSent now f pick) cap
        (if (link.fillWindow.markSent now f pick).moreToSend pick then fData ||| fMore else fData)
        f.seq f.raw
      refine ⟨data.trans ?_, dataResent.trans ?_⟩
      · simp [markSent, sent]
      · simp [markSent, resent]

/-- The other calls leave the counters alone, except `Init`. -/
theorem stats_apply (heatshrink : Heatshrink) (link : Link RING) (op : Op)
    (running : ∀ c, op ≠ .init c) (silent : ∀ cap now, op ≠ .nextTx cap now) :
    (link.apply heatshrink op).statTx = link.statTx ∧
      (link.apply heatshrink op).statRetx = link.statRetx := by
  cases op with
  | init c => exact absurd rfl (running c)
  | nextTx cap now => exact absurd rfl (silent cap now)
  | write d =>
      obtain ⟨_, written⟩ := link.write_link d
      simp [apply, written]
  | read max =>
      obtain ⟨_, _, _, _, _, taken⟩ := link.read_link max
      simp [apply, taken]
  | makePoll cap =>
      obtain ⟨_, _, encoded⟩ := encode_link heatshrink link cap 0 0 []
      simp [apply, makePoll, encoded]
  | onRx input =>
      obtain ⟨_, _, _, _, _, _, _, _, _, _, _, _, _, _, _, _, _, heard⟩ :=
        link.onRx_link heatshrink input
      simp [apply, heard]
  | _ => exact ⟨rfl, rfl⟩

end LoraSerial.LinkLayer.Link

namespace LoraSerial.Device

open Library.Run LinkLayer

/-! ### Mode changes and the link -/

namespace NodeAction

/-- `ApplyModeByIndex` is called and succeeds. -/
def appliesIndex (node : Node) (action : NodeAction) : Bool :=
  match action with
  | .reboot _ _ | .elected | .factoryReset _ => false
  | _ => action.begins node ||
      (action.served node).any fun ms => ms.apply.any fun idx => idx < rfModeCount

/-- `ApplyLinkConfig` is called. -/
def configures (node : Node) : NodeAction → Bool
  | .reboot _ _ | .elected | .factoryReset _ => true
  | .rendezvous => node.radio.currentModeIndex ≠ some medium
  | _ => false

end NodeAction

/-- `kAdrMinFrames` -/
def adrMinFrames : UInt32 := 24

/-- `retx_pct` of `DriveAdr`; 32-bit arithmetic. -/
def retxPct (tx retx : UInt32) : Int :=
  if adrMinFrames ≤ tx then (100 * retx / tx).toNat else -1

/-- A board with its link. `fresh` lists the data frames sent since the mode was last
applied or the link re-initialised, `true` for a resend. -/
structure Adaptive (RING : Nat) where
  node : Node
  link : Link RING
  adr : Bool
  fresh : List Bool

/-- `c` is the configuration a mode change with re-initialisation gives the link. -/
inductive AdaptiveAction where
  | mode (action : NodeAction) (c : Config)
  | link (op : Op)
  | setAdr (enabled : Bool)
  | driveAdr

namespace Adaptive

variable {RING : Nat}

def start (built saved : PhyConfig) (c : Config) (adr : Bool) : Adaptive RING where
  node := .setup built saved
  link := (Link.zeroed c).init c
  adr := adr
  fresh := []

/-- What a mode change does to the link. -/
def relink (timeOnAir : Phy → UInt32) (w : Adaptive RING) (action : NodeAction) (c : Config) :
    Link RING :=
  let timing := deriveTiming (timeOnAir (w.node.step action).radio.phy)
  let timed :=
    if action.appliesIndex w.node then w.link.setTiming timing.window timing.retransmitMs
    else w.link
  match action with
  | .reboot _ _ => (Link.zeroed c).init c
  | _ => if action.configures w.node then timed.init c else timed

/-- What `DriveAdr` hands to the controller, when 'auto' is on. -/
def driveAdr (w : Adaptive RING) : Option Int :=
  if w.adr then some (retxPct w.link.statTx w.link.statRetx) else none

def step (heatshrink : Heatshrink) (timeOnAir : Phy → UInt32) (w : Adaptive RING) :
    AdaptiveAction → Adaptive RING
  | .mode action c =>
      { w with
        node := w.node.step action
        link := w.relink timeOnAir action c
        fresh := if action.appliesIndex w.node || action.configures w.node then [] else w.fresh }
  | .link op =>
      { w with
        link := w.link.apply heatshrink op
        fresh :=
          match op with
          | .init _ => []
          | .nextTx _ now => w.fresh ++ ((w.link.picked now).map (·.everSent)).toList
          | _ => w.fresh }
  | .setAdr enabled => { w with adr := enabled }
  | .driveAdr => w

/-- The ratio is that of the frames sent on this mode, and -1 for fewer than 24. -/
def Judged (w : Adaptive RING) : AdaptiveAction → Prop
  | .driveAdr => ∀ pct ∈ w.driveAdr,
      pct = retxPct (UInt32.ofNat w.fresh.length) (UInt32.ofNat (w.fresh.count true)) ∧
        (w.fresh.length < adrMinFrames.toNat → pct = -1)
  | _ => True

/-- A mode is applied without re-initialising the link only while its counters are zero. -/
def Clean (w : Adaptive RING) : AdaptiveAction → Prop
  | .mode action _ => action.appliesIndex w.node → action.configures w.node = false →
      w.link.statTx = 0 ∧ w.link.statRetx = 0
  | _ => True

instance : ∀ (w : Adaptive RING) (action : AdaptiveAction), Decidable (w.Clean action)
  | _, .mode _ _ => inferInstanceAs (Decidable (_ → _ → _))
  | _, .link _ | _, .setAdr _ | _, .driveAdr => .isTrue trivial

/-- The link's counters count the frames sent on this mode. -/
structure Counted (w : Adaptive RING) : Prop where
  tx : w.link.statTx = UInt32.ofNat w.fresh.length
  retx : w.link.statRetx = UInt32.ofNat (w.fresh.count true)

variable {heatshrink : Heatshrink} {timeOnAir : Phy → UInt32} {w : Adaptive RING}

theorem counted_start (built saved : PhyConfig) (c : Config) (adr : Bool) :
    (start built saved c adr : Adaptive RING).Counted :=
  ⟨rfl, rfl⟩

theorem retxPct_few {frames : Nat} (few : frames < adrMinFrames.toNat) (retx : UInt32) :
    retxPct (UInt32.ofNat frames) retx = -1 := by
  have small : frames < 24 := few
  refine if_neg ?_
  rw [UInt32.le_iff_toNat_le]
  have wide : (UInt32.ofNat frames).toNat = frames := by
    rw [UInt32.toNat_ofNat']
    omega
  rw [wide]
  change ¬24 ≤ frames
  omega

theorem Counted.judged (counted : w.Counted) (action : AdaptiveAction) : w.Judged action := by
  cases action with
  | driveAdr =>
      intro pct passed
      simp only [driveAdr, Option.mem_def, Option.ite_none_right_eq_some, Option.some.injEq] at passed
      have value : pct =
          retxPct (UInt32.ofNat w.fresh.length) (UInt32.ofNat (w.fresh.count true)) := by
        rw [← passed.2, counted.tx, counted.retx]
      exact ⟨value, fun few => value.trans (retxPct_few few _)⟩
  | _ => trivial

/-- A call of the link counts exactly the data frames it sends. -/
theorem Counted.link (counted : w.Counted) (op : Op) :
    (w.step heatshrink timeOnAir (.link op)).Counted := by
  have others := w.link.stats_apply heatshrink op
  cases op with
  | init c => exact ⟨rfl, rfl⟩
  | nextTx cap now =>
      obtain ⟨sent, resent⟩ := w.link.stats_nextTx heatshrink cap now
      cases picked : w.link.picked now with
      | none =>
          rw [picked] at sent resent
          refine ⟨?_, ?_⟩
          · simpa [step, Link.apply, picked] using sent.trans counted.tx
          · simpa [step, Link.apply, picked] using resent.trans counted.retx
      | some f =>
          rw [picked] at sent resent
          refine ⟨?_, ?_⟩
          · simp only [Option.isSome_some, if_true, counted.tx] at sent
            simpa [step, Link.apply, picked] using sent
          · cases again : f.everSent with
            | false =>
                simp only [Option.any_some, again, Bool.false_eq_true, if_false, counted.retx]
                  at resent
                simpa [step, Link.apply, picked, again] using resent
            | true =>
                simp only [Option.any_some, again, if_true, counted.retx] at resent
                simpa [step, Link.apply, picked, again] using resent
  | _ =>
      obtain ⟨sent, resent⟩ := others (by simp) (by simp)
      exact ⟨sent.trans counted.tx, resent.trans counted.retx⟩

/-- A mode change keeps the count right when it starts from zero or re-initialises. -/
theorem Counted.mode (counted : w.Counted) {action : NodeAction} {c : Config}
    (clean : w.Clean (.mode action c)) :
    (w.step heatshrink timeOnAir (.mode action c)).Counted := by
  cases configures : action.configures w.node with
  | true =>
      have reset : (w.relink timeOnAir action c).statTx = 0 ∧
          (w.relink timeOnAir action c).statRetx = 0 := by
        unfold relink
        dsimp only
        split
        · exact ⟨rfl, rfl⟩
        · rw [if_pos configures]
          exact ⟨rfl, rfl⟩
      refine ⟨?_, ?_⟩
      · simpa [step, configures] using reset.1
      · simpa [step, configures] using reset.2
  | false =>
      have kept : (w.relink timeOnAir action c).statTx = w.link.statTx ∧
          (w.relink timeOnAir action c).statRetx = w.link.statRetx := by
        unfold relink
        dsimp only
        split
        · cases configures
        · rw [if_neg (by simp [configures])]
          split <;> exact ⟨rfl, rfl⟩
      cases applies : action.appliesIndex w.node with
      | true =>
          obtain ⟨zero, retxZero⟩ := clean applies configures
          refine ⟨?_, ?_⟩
          · simpa [step, applies, zero] using kept.1
          · simpa [step, applies, retxZero] using kept.2
      | false =>
          refine ⟨?_, ?_⟩
          · simpa [step, applies, configures] using kept.1.trans counted.tx
          · simpa [step, applies, configures] using kept.2.trans counted.retx

theorem Counted.step (counted : w.Counted) (action : AdaptiveAction) (clean : w.Clean action) :
    (w.step heatshrink timeOnAir action).Counted := by
  cases action with
  | mode action c => exact counted.mode clean
  | link op => exact counted.link op
  | setAdr enabled => exact ⟨counted.tx, counted.retx⟩
  | driveAdr => exact counted

/-! ### Runs -/

/-- In every run in which a mode is applied only while the link's counters are zero, or
with a re-initialised link, every ratio handed to the controller is that of the frames
sent on the present mode. -/
theorem judged_run (heatshrink : Heatshrink) (timeOnAir : Phy → UInt32) (built saved : PhyConfig)
    (c : Config) (adr : Bool) (actions : List AdaptiveAction)
    (clean : Along (step heatshrink timeOnAir) Clean (start built saved c adr : Adaptive RING)
      actions) :
    Along (step heatshrink timeOnAir) Judged (start built saved c adr : Adaptive RING) actions :=
  clean.imp (fun _ action counted _ => counted.judged action)
    (fun _ action counted fine => counted.step action fine) (counted_start built saved c adr)

/-- The initiator asks for 'medium', is acknowledged and switches. -/
def toMedium : List AdaptiveAction :=
  [.mode (.requested 2) .default, .mode (.heard 0x70 true) .default, .mode (.serviced 0) .default]

/-- The first data frames are sent after the switch. -/
theorem judged_run_toMedium :
    Along (step .copying fun _ => 100000) Judged
      (start ⟨7, 2, 5⟩ ⟨7, 2, 5⟩ .default true : Adaptive 4)
      (toMedium ++ [.link (.write [1]), .link (.nextTx maxFrame 0), .driveAdr]) :=
  judged_run .copying (fun _ => 100000) ⟨7, 2, 5⟩ ⟨7, 2, 5⟩ .default true _ (by decide +kernel)

/-- One frame is sent 24 times on 'fast', then the board switches. -/
def lossyFast : List AdaptiveAction :=
  .link (.write [1]) ::
    ((List.range 24).flatMap fun turn =>
      [.link .beginTurn, .link (.nextTx maxFrame (UInt32.ofNat (2000 * turn)))]) ++ toMedium

/-- The controller is handed the 95% loss of 'fast' before a frame is sent on 'medium'. -/
theorem lossyFast_misjudged :
    ¬Along (step .copying fun _ => 100000) Judged
      (start ⟨7, 2, 5⟩ ⟨7, 2, 5⟩ .default true : Adaptive 4) (lossyFast ++ [.driveAdr]) := by
  intro judged
  have last := (along_append.mp judged).2.1
  exact absurd (last 95 (by decide +kernel)).1 (by decide +kernel)

end Adaptive

end LoraSerial.Device
