import LoraSerial.Host.Board
import LoraSerial.LinkLayer.X25519
import Mathlib.Logic.Function.Basic

/-!
Owns the pairing exchange of two boards: every wait of `RunPairing` is a step, frames
on the air are lost or end up in the other board's RX ring, and boards start, restart
and reboot at any time. The RX ring is a queue of the frames it accepted; a frame that
finds it full is lost. Search and listen windows are left out: a run may give up
whenever it is about to transmit.

`origin`, `runs` and `took` record history that the firmware does not have.
-/

namespace LoraSerial.Host.Pairing

open LinkLayer X25519

def pairMagic : Bytes := [0xAA, 0x55, 0x54, 0x52]
def pairMagicLen : Nat := 4
def pairPubLen : Nat := 32
def pairFrameLen : Nat := pairMagicLen + pairPubLen
def pairResends : Nat := 5

/-! ### State -/

inductive Side where
  | left
  | right
deriving DecidableEq, Repr

def Side.other : Side → Side
  | .left => .right
  | .right => .left

/-- A queued frame and the pairing run of its sender that sent it, if one did. -/
structure Heard where
  frame : Bytes
  origin : Option Nat
deriving DecidableEq, Repr

/-- Where `RunPairing` is; `left` counts the resends still to come. -/
inductive Stage where
  | idle
  | searching
  | listening
  | resending (left : Nat)
  | confirming (left : Nat)
deriving DecidableEq, Repr

/-- `result` is what the most recent run returned. `runs` counts the runs begun; `took`
is the origin of the key the most recent run took, if it took one. -/
structure Board where
  stage : Stage
  priv : Bytes
  peer : Bytes
  ring : List Heard
  pkey : Option Key
  staticKey : Key
  result : Option Bool
  runs : Nat
  took : Option (Option Nat)
deriving DecidableEq

abbrev World := Side → Board

theorem Side.other_ne (side : Side) : side.other ≠ side := by
  cases side <;> decide

@[simp] theorem Side.other_other (side : Side) : side.other.other = side := by
  cases side <;> rfl

/-! ### Steps -/

def pairFrame (priv : Bytes) : Bytes :=
  pairMagic ++ scalarmultBase priv

/-- `rl == sizeof frame && memcmp(rx, kPairMagic, kPairMagicLen) == 0` -/
def isPairFrame (frame : Bytes) : Bool :=
  frame.length == pairFrameLen && frame.take pairMagicLen == pairMagic

/-- `AsconKdf16` of the X25519 secret. -/
def pairKey (priv peer : Bytes) : Key :=
  asconKdf16 (scalarmult priv peer)

inductive Action where
  | begin (priv : Bytes)
  | transmit (delivered : Bool)
  | traffic (frame : Bytes) (delivered : Bool)
  | receive
  | expire
  | adopt
  | reboot
deriving DecidableEq, Repr

namespace Board

/-- Entry of `RunPairing` with fresh random bytes. -/
def begin (board : Board) (priv : Bytes) : Board :=
  { board with
    stage := .searching
    priv := priv
    result := none
    runs := board.runs + 1
    took := none }

/-- The stage after `g_radio.Tx(frame, ..)`, where the run transmits next. -/
def afterTx : Stage → Option Stage
  | .searching => some .listening
  | .resending (left + 1) => some (.confirming left)
  | .idle | .listening | .resending 0 | .confirming _ => none

/-- `g_radio.Rx` takes the oldest queued frame or times out. Outside a run the main
loop takes it; while confirming it is thrown away. -/
def receive (board : Board) : Board :=
  match board.stage, board.ring with
  | .listening, [] => { board with stage := .searching }
  | .listening, heard :: rest =>
      if isPairFrame heard.frame then
        { board with
          ring := rest
          peer := heard.frame.drop pairMagicLen
          stage := .resending pairResends
          took := some heard.origin }
      else { board with ring := rest, stage := .searching }
  | .confirming left, ring => { board with ring := ring.tail, stage := .resending left }
  | .idle, ring => { board with ring := ring.tail }
  | .searching, _ | .resending _, _ => board

/-- The search window is over. -/
def expire (board : Board) : Board :=
  match board.stage with
  | .searching => { board with stage := .idle, result := some false }
  | _ => board

/-- Derive, persist and adopt the key. -/
def adopt (board : Board) : Board :=
  match board.stage with
  | .resending 0 =>
      let key := pairKey board.priv board.peer
      { board with
        stage := .idle
        pkey := some key
        staticKey := key
        result := some true }
  | _ => board

/-- Power cycle: a run in progress returns nothing, the key comes from flash. -/
def reboot (board : Board) : Board :=
  { board with
    stage := .idle
    ring := []
    staticKey := board.pkey.getD linkKey
    result := if board.stage = .idle then board.result else none }

/-- A frame of the other board reaches the RX ring. -/
def hear (board : Board) (heard : Heard) (delivered : Bool) : Board :=
  if delivered then { board with ring := board.ring ++ [heard] } else board

end Board

namespace World

def set (world : World) (side : Side) (board : Board) : World :=
  Function.update world side board

def step (world : World) (side : Side) : Action → World
  | .begin priv =>
      if (world side).stage = .idle then world.set side ((world side).begin priv) else world
  | .transmit delivered =>
      match Board.afterTx (world side).stage with
      | none => world
      | some stage =>
          (world.set side { world side with stage := stage }).set side.other
            ((world side.other).hear
              { frame := pairFrame (world side).priv, origin := some (world side).runs } delivered)
  | .traffic frame delivered =>
      if (world side).stage = .idle then
        world.set side.other ((world side.other).hear { frame := frame, origin := none } delivered)
      else world
  | .receive => world.set side (world side).receive
  | .expire => world.set side (world side).expire
  | .adopt => world.set side (world side).adopt
  | .reboot => world.set side (world side).reboot

def run (world : World) (actions : List (Side × Action)) : World :=
  actions.foldl (fun world action => world.step action.1 action.2) world

/-- Before any pairing: whatever is queued or stored comes from before. -/
def Unpaired (world : World) : Prop :=
  ∀ side, (world side).stage = .idle ∧ (world side).result = none ∧ (world side).runs = 0 ∧
    (world side).took = none ∧ ∀ heard ∈ (world side).ring, heard.origin = none

/-- If the most recent run of each board returned true, both hold and have stored one
key. -/
def Agrees (world : World) : Prop :=
  (∀ side, (world side).result = some true) →
    ∃ key, ∀ side, (world side).staticKey = key ∧ (world side).pkey = some key

end World

/-- The origin of the key that the next `Rx` of a search takes. -/
def Board.takes (board : Board) : Option (Option Nat) :=
  match board.stage, board.ring with
  | .listening, heard :: _ => if isPairFrame heard.frame then some heard.origin else none
  | _, _ => none

namespace World

/-- A key taken after the other board's most recent run took one is that run's, and that
run took this run's. -/
def TakesBack (world : World) (side : Side) (action : Action) : Prop :=
  action = .receive → ∀ origin ∈ (world side).takes, (world side.other).took ≠ none →
      origin = some (world side.other).runs ∧
        (world side.other).took = some (some (world side).runs)

instance (world : World) (side : Side) (action : Action) :
    Decidable (world.TakesBack side action) :=
  inferInstanceAs (Decidable (_ → _))

/-- Every step of the run meets the condition. -/
def Meets : World → List (Side × Action) → Prop
  | _, [] => True
  | world, action :: rest =>
      world.TakesBack action.1 action.2 ∧ (world.step action.1 action.2).Meets rest

instance decidableMeets : (world : World) → (actions : List (Side × Action)) →
    Decidable (world.Meets actions)
  | _, [] => .isTrue trivial
  | world, action :: rest =>
      have := decidableMeets (world.step action.1 action.2) rest
      inferInstanceAs (Decidable (_ ∧ _))

/-- X25519 commutes on the key pairs the two boards draw. -/
def KeysCommute (actions : List (Side × Action)) : Prop :=
  ∀ a b, (Side.left, Action.begin a) ∈ actions → (Side.right, Action.begin b) ∈ actions →
    scalarmult a (scalarmultBase b) = scalarmult b (scalarmultBase a)

/-! ### Invariant -/

@[simp] theorem set_self (world : World) (side : Side) (board : Board) :
    world.set side board side = board :=
  Function.update_self ..

@[simp] theorem set_other (world : World) (side : Side) (board : Board) :
    world.set side board side.other = world side.other :=
  Function.update_of_ne side.other_ne ..

theorem forall_side {property : Side → Prop} (side : Side) (here : property side)
    (there : property side.other) : ∀ s, property s := by
  intro s
  cases side <;> cases s <;> assumption

end World

/-- What one board knows, given the other's most recent run and private key. -/
structure Knows (keys : Bytes → Prop) (otherRuns : Nat) (otherPriv : Bytes) (board : Board) :
    Prop where
  priv : board.runs ≠ 0 → keys board.priv
  ring : ∀ heard ∈ board.ring, ∀ origin, heard.origin = some origin →
    origin ≤ otherRuns ∧ (origin = otherRuns → heard.frame = pairFrame otherPriv)
  peer : ∀ origin, board.took = some (some origin) →
    origin ≤ otherRuns ∧ (origin = otherRuns → board.peer = scalarmultBase otherPriv)
  started : board.stage ≠ .idle → board.runs ≠ 0
  taken : ∀ left, board.stage = .resending left ∨ board.stage = .confirming left →
    board.took ≠ none
  done : board.result = some true → board.stage = .idle ∧ board.runs ≠ 0 ∧ board.took ≠ none ∧
    board.staticKey = pairKey board.priv board.peer ∧
    board.pkey = some (pairKey board.priv board.peer)

/-- Both boards know what they should, and two keys taken by the most recent runs are
each other's. -/
structure Sound (keys : Side → Bytes → Prop) (world : World) : Prop where
  knows : ∀ side, Knows (keys side) (world side.other).runs (world side.other).priv (world side)
  reciprocal : ∀ side, (world side).took ≠ none → (world side.other).took ≠ none →
    (world side).took = some (some (world side.other).runs)

namespace Knows

variable {keys : Bytes → Prop} {otherRuns : Nat} {otherPriv : Bytes} {board : Board}

theorem begin (knows : Knows keys otherRuns otherPriv board) {priv : Bytes} (own : keys priv) :
    Knows keys otherRuns otherPriv (board.begin priv) where
  priv := fun _ => own
  ring := knows.ring
  peer := by simp [Board.begin]
  started := by simp [Board.begin]
  taken := by simp [Board.begin]
  done := by simp [Board.begin]

/-- When the other board begins a run, what is known is about an older one. -/
theorem supersede (knows : Knows keys otherRuns otherPriv board) (priv : Bytes) :
    Knows keys (otherRuns + 1) priv board :=
  { knows with
    ring := by
      intro heard member origin sent
      have older := (knows.ring heard member origin sent).1
      exact ⟨by omega, fun same => absurd same (by omega)⟩
    peer := by
      intro origin took
      have older := (knows.peer origin took).1
      exact ⟨by omega, fun same => absurd same (by omega)⟩ }

theorem hear (knows : Knows keys otherRuns otherPriv board) {heard : Heard}
    (sent : ∀ origin, heard.origin = some origin →
      origin ≤ otherRuns ∧ (origin = otherRuns → heard.frame = pairFrame otherPriv))
    (delivered : Bool) : Knows keys otherRuns otherPriv (board.hear heard delivered) := by
  unfold Board.hear
  split
  · refine { knows with ring := ?_ }
    intro queued member
    rcases List.mem_append.mp member with old | new
    · exact knows.ring queued old
    · rw [List.mem_singleton.mp new]
      exact sent
  · exact knows

/-- Inside a run: another stage of the same run, with some frames thrown away. -/
theorem proceed (knows : Knows keys otherRuns otherPriv board) (busy : board.stage ≠ .idle)
    {ring : List Heard} (kept : ∀ heard ∈ ring, heard ∈ board.ring) {stage : Stage}
    (taken : ∀ left, stage = .resending left ∨ stage = .confirming left → board.took ≠ none) :
    Knows keys otherRuns otherPriv { board with ring := ring, stage := stage } :=
  { knows with
    ring := fun heard member => knows.ring heard (kept heard member)
    started := fun _ => knows.started busy
    taken := taken
    done := fun returned => absurd (knows.done returned).1 busy }

theorem transmit (knows : Knows keys otherRuns otherPriv board) {stage : Stage}
    (next : Board.afterTx board.stage = some stage) :
    Knows keys otherRuns otherPriv { board with stage := stage } := by
  cases now : board.stage with
  | searching =>
      simp only [now, Board.afterTx, Option.some.injEq] at next
      refine knows.proceed (by simp [now]) (fun _ member => member) ?_
      simp [← next]
  | resending resends =>
      exact knows.proceed (by simp [now]) (fun _ member => member)
        fun _ _ => knows.taken resends (Or.inl now)
  | idle | listening | confirming => simp [now, Board.afterTx] at next

theorem receive (knows : Knows keys otherRuns otherPriv board) :
    Knows keys otherRuns otherPriv board.receive := by
  unfold Board.receive
  split
  next now empty =>
    exact knows.proceed (by simp [now]) (fun _ member => member) (by simp)
  next heard rest now queued =>
    have kept : ∀ other ∈ rest, other ∈ board.ring := by
      intro other member
      rw [queued]
      exact List.mem_cons_of_mem _ member
    split
    · have searched : Knows keys otherRuns otherPriv
          { board with ring := rest, stage := .searching } :=
        knows.proceed (by simp [now]) kept (by simp)
      refine { searched with peer := ?_, started := ?_, taken := by simp, done := ?_ }
      · intro origin took
        simp only [Option.some.injEq] at took
        obtain ⟨below, sent⟩ := knows.ring heard (by simp [queued]) origin took
        refine ⟨below, fun latest => ?_⟩
        simp only [sent latest, pairFrame]
        exact List.drop_left' rfl
      · exact fun _ => knows.started (by simp [now])
      · intro returned
        exact absurd (knows.done returned).1 (by simp [now])
    · exact knows.proceed (by simp [now]) kept (by simp)
  next _ left now =>
    exact knows.proceed (by simp [now]) (fun _ member => List.mem_of_mem_tail member)
      fun _ _ => knows.taken left (Or.inr now)
  next ring now =>
    exact { knows with ring := fun heard member => knows.ring heard (List.mem_of_mem_tail member) }
  next => exact knows
  next => exact knows

theorem expire (knows : Knows keys otherRuns otherPriv board) :
    Knows keys otherRuns otherPriv board.expire := by
  unfold Board.expire
  split
  · exact { knows with started := by simp, taken := by simp, done := by simp }
  · exact knows

theorem adopt (knows : Knows keys otherRuns otherPriv board) :
    Knows keys otherRuns otherPriv board.adopt := by
  unfold Board.adopt
  split
  next now =>
    refine { knows with started := by simp, taken := by simp, done := ?_ }
    intro _
    exact ⟨rfl, knows.started (by simp [now]), knows.taken 0 (Or.inl now), rfl, rfl⟩
  · exact knows

theorem reboot (knows : Knows keys otherRuns otherPriv board) :
    Knows keys otherRuns otherPriv board.reboot := by
  refine { knows with ring := by simp [Board.reboot], started := by simp [Board.reboot]
                      taken := by simp [Board.reboot], done := ?_ }
  intro returned
  simp only [Board.reboot] at returned ⊢
  split at returned
  · obtain ⟨-, begun, took, -, stored⟩ := knows.done returned
    exact ⟨trivial, begun, took, by rw [stored]; rfl, stored⟩
  · cases returned

end Knows

namespace Sound

variable {keys : Side → Bytes → Prop} {world : World}

theorem unpaired (start : world.Unpaired) : Sound keys world where
  knows := by
    intro side
    obtain ⟨idle, result, runs, took, before⟩ := start side
    constructor
    · exact fun begun => absurd runs begun
    · intro heard member origin sent
      rw [before heard member] at sent
      cases sent
    · simp [took]
    · exact fun busy => absurd idle busy
    · simp [idle]
    · simp [result]
  reciprocal := by
    intro side took
    exact absurd (start side).2.2.2.1 took

/-- A step of one board that keeps its run, its key pair and what it took. -/
theorem local_step (sound : Sound keys world) {side : Side} {board : Board}
    (knows : Knows (keys side) (world side.other).runs (world side.other).priv board)
    (sameRuns : board.runs = (world side).runs) (samePriv : board.priv = (world side).priv)
    (sameTook : board.took = (world side).took) : Sound keys (world.set side board) where
  knows := by
    refine World.forall_side side ?_ ?_
    · simpa using knows
    · simpa [World.set_other, sameRuns, samePriv] using sound.knows side.other
  reciprocal := by
    refine World.forall_side side ?_ ?_
    · simpa [sameTook, sameRuns] using sound.reciprocal side
    · simpa [sameTook, sameRuns] using sound.reciprocal side.other

/-- A frame queued at the other board. -/
theorem hear (sound : Sound keys world) {side : Side} {heard : Heard}
    (sent : ∀ origin, heard.origin = some origin → origin ≤ (world side).runs ∧
      (origin = (world side).runs → heard.frame = pairFrame (world side).priv))
    (delivered : Bool) :
    Sound keys (world.set side.other ((world side.other).hear heard delivered)) := by
  have knows : Knows _ _ _ ((world side.other).hear heard delivered) :=
    (sound.knows side.other).hear (by simpa using sent) delivered
  refine sound.local_step knows ?_ ?_ ?_ <;> (unfold Board.hear; split <;> rfl)

/-- The other board begins a run: nothing was taken in it. -/
theorem begin (sound : Sound keys world) {side : Side} {priv : Bytes} (own : keys side priv) :
    Sound keys (world.set side ((world side).begin priv)) where
  knows := by
    refine World.forall_side side ?_ ?_
    · simpa using (sound.knows side).begin own
    · simpa [World.set_other, Board.begin] using (sound.knows side.other).supersede priv
  reciprocal := by
    refine World.forall_side side ?_ ?_
    · simp [Board.begin]
    · simp [Board.begin]

end Sound

theorem Board.receive_took (board : Board) :
    board.receive.runs = board.runs ∧ board.receive.priv = board.priv ∧
      (board.receive.took = board.took ∨
        ∃ origin, board.takes = some origin ∧ board.receive.took = some origin) := by
  unfold Board.receive Board.takes
  split
  · exact ⟨rfl, rfl, Or.inl rfl⟩
  next heard rest now queued =>
    split
    next pair =>
      refine ⟨rfl, rfl, Or.inr ⟨heard.origin, ?_, rfl⟩⟩
      simp [now, queued, pair]
    · exact ⟨rfl, rfl, Or.inl rfl⟩
  · exact ⟨rfl, rfl, Or.inl rfl⟩
  · exact ⟨rfl, rfl, Or.inl rfl⟩
  · exact ⟨rfl, rfl, Or.inl rfl⟩
  · exact ⟨rfl, rfl, Or.inl rfl⟩

namespace Sound

variable {keys : Side → Bytes → Prop} {world : World}

/-- The only step that can pair two boards with different keys. -/
theorem receive (sound : Sound keys world) {side : Side}
    (takesBack : world.TakesBack side .receive) :
    Sound keys (world.set side (world side).receive) := by
  obtain ⟨sameRuns, samePriv, sameTook | ⟨origin, takes, took⟩⟩ := (world side).receive_took
  · exact sound.local_step (sound.knows side).receive sameRuns samePriv sameTook
  · have back := takesBack rfl origin takes
    constructor
    · refine World.forall_side side ?_ ?_
      · simpa using (sound.knows side).receive
      · simpa [World.set_other, sameRuns, samePriv] using sound.knows side.other
    · refine World.forall_side side ?_ ?_
      · simp only [World.set_self, World.set_other, took]
        intro _ other
        rw [(back other).1]
      · simp only [World.set_other, Side.other_other, World.set_self, sameRuns]
        exact fun other _ => (back other).2

theorem step (sound : Sound keys world) {side : Side} {action : Action}
    (takesBack : world.TakesBack side action)
    (own : ∀ priv, action = .begin priv → keys side priv) : Sound keys (world.step side action) := by
  cases action with
  | begin priv =>
      rw [World.step]
      split
      · exact sound.begin (own priv rfl)
      · exact sound
  | transmit delivered =>
      simp only [World.step]
      split
      · exact sound
      next stage next =>
        have moved := sound.local_step ((sound.knows side).transmit next) rfl rfl rfl
        have heard : Sound keys ((world.set side { world side with stage := stage }).set side.other
            (((world.set side { world side with stage := stage }) side.other).hear
              { frame := pairFrame (world side).priv, origin := some (world side).runs }
              delivered)) :=
          moved.hear (by simp) delivered
        simpa [World.set_other] using heard
  | traffic frame delivered =>
      rw [World.step]
      split
      · exact sound.hear (by simp) delivered
      · exact sound
  | receive => exact sound.receive takesBack
  | expire =>
      refine sound.local_step (sound.knows side).expire ?_ ?_ ?_ <;>
        (unfold Board.expire; split <;> rfl)
  | adopt =>
      refine sound.local_step (sound.knows side).adopt ?_ ?_ ?_ <;>
        (unfold Board.adopt; split <;> rfl)
  | reboot => exact sound.local_step (sound.knows side).reboot rfl rfl rfl

theorem run {actions : List (Side × Action)} (sound : Sound keys world)
    (meets : world.Meets actions)
    (own : ∀ side priv, (side, .begin priv) ∈ actions → keys side priv) :
    Sound keys (world.run actions) := by
  induction actions generalizing world with
  | nil => exact sound
  | cons action rest inductionHypothesis =>
      obtain ⟨takesBack, later⟩ := meets
      refine inductionHypothesis (sound.step takesBack ?_) later ?_
      · intro priv begins
        exact own action.1 priv (by simp [← begins])
      · exact fun side priv member => own side priv (List.mem_cons_of_mem _ member)

/-- Two runs that took each other's keys agree, where X25519 commutes on them. -/
theorem agrees (sound : Sound keys world)
    (commutes : ∀ a b, keys .left a → keys .right b →
      scalarmult a (scalarmultBase b) = scalarmult b (scalarmultBase a)) : world.Agrees := by
  intro returned
  obtain ⟨-, leftRuns, leftTook, leftKey, leftStored⟩ := (sound.knows .left).done (returned .left)
  obtain ⟨-, rightRuns, rightTook, rightKey, rightStored⟩ :=
    (sound.knows .right).done (returned .right)
  have leftPeer := ((sound.knows .left).peer _ (sound.reciprocal .left leftTook rightTook)).2 rfl
  have rightPeer := ((sound.knows .right).peer _ (sound.reciprocal .right rightTook leftTook)).2 rfl
  have same : pairKey (world .left).priv (world .left).peer =
      pairKey (world .right).priv (world .right).peer := by
    rw [pairKey, pairKey, leftPeer, rightPeer]
    exact congrArg asconKdf16 (commutes _ _ ((sound.knows .left).priv leftRuns)
      ((sound.knows .right).priv rightRuns))
  refine ⟨_, World.forall_side .left ⟨leftKey, leftStored⟩ ?_⟩
  rw [same]
  exact ⟨rightKey, rightStored⟩

end Sound

namespace World

/-- Over every run of two boards from before any pairing: if every key taken after the
other board's most recent run took one is that run's, and that run took this run's, then
whenever the most recent runs of both returned true, both hold and have stored one
key. -/
theorem agrees_run (world : World) (start : world.Unpaired) (actions : List (Side × Action))
    (commutes : KeysCommute actions) (meets : world.Meets actions) :
    (world.run actions).Agrees :=
  ((Sound.unpaired start).run meets fun _ _ member => member).agrees commutes

/-- Two new boards. -/
def unpaired : World := fun _ =>
  { stage := .idle, priv := [], peer := [], ring := [], pkey := none, staticKey := linkKey
    result := none, runs := 0, took := none }

/-- Five resends, of which the first may arrive, and the key. -/
def resends (side : Side) (delivered : Bool) : List (Side × Action) :=
  (side, .transmit delivered) :: (side, .receive) ::
    (List.replicate 4 [(side, .transmit false), (side, .receive)]).flatten ++ [(side, .adopt)]

/-- Left is heard while right starts; right's first resend is heard. -/
def cleanPairing : List (Side × Action) :=
  [(.left, .begin (List.replicate 32 1)), (.left, .transmit true),
    (.right, .begin (List.replicate 32 2)), (.right, .transmit false), (.right, .receive)] ++
  resends .right true ++ [(.left, .receive)] ++ resends .left false

theorem agrees_run_clean : (unpaired.run cleanPairing).Agrees := by
  refine agrees_run unpaired ?_ cleanPairing ?_ (by decide +kernel)
  · intro side
    exact ⟨rfl, rfl, rfl, rfl, by simp [unpaired]⟩
  · intro a b left right
    have first : a = List.replicate 32 1 := by simpa [cleanPairing, resends] using left
    have second : b = List.replicate 32 2 := by simpa [cleanPairing, resends] using right
    rw [first, second]
    decide +kernel

/-- Left is heard but gives up, right takes its key and is heard by the idle left board;
left runs again and takes the queued key. -/
def stalePairing : List (Side × Action) :=
  [(.left, .begin (List.replicate 32 1)), (.left, .transmit true), (.left, .receive),
    (.left, .expire),
    (.right, .begin (List.replicate 32 2)), (.right, .transmit false), (.right, .receive)] ++
  resends .right true ++
  [(.left, .begin (List.replicate 32 3)), (.left, .transmit false), (.left, .receive)] ++
  resends .left false

theorem stale_key_taken : KeysCommute stalePairing ∧ ¬(unpaired.run stalePairing).Agrees := by
  constructor
  · intro a b left right
    have first : a = List.replicate 32 1 ∨ a = List.replicate 32 3 := by
      simpa [stalePairing, resends] using left
    have second : b = List.replicate 32 2 := by simpa [stalePairing, resends] using right
    rw [second]
    rcases first with rfl | rfl <;> decide +kernel
  · intro agrees
    have returned : ∀ side, ((unpaired.run stalePairing) side).result = some true := by
      intro side
      cases side <;> decide +kernel
    obtain ⟨key, stored⟩ := agrees returned
    have same := (stored .left).1.trans (stored .right).1.symm
    exact absurd same (by decide +kernel)

end World

end LoraSerial.Host.Pairing
