import Mathlib.Data.List.Basic
import Mathlib.Data.List.Pairwise
import Mathlib.Order.Basic
import Mathlib.Algebra.Order.Group.Nat
import Mathlib.Logic.Relation

/-!
Owns one direction of a selective-repeat protocol over unbounded sequence
numbers, with a window of `W` frames and a channel that is FIFO and may lose any
frame. The sender builds frames `0, 1, …`, keeps those from `base` on and marks
the acknowledged ones; the receiver delivers frame `delivered` next and holds
later ones of its window. An acknowledgement in flight carries the receiver's
`delivered` and the set it held.

`Invariant` is preserved by every `Step`. From it come the protocol's safety
(`Invariant.has_of_lt_base`) and the four distance bounds a receiver of truncated
sequence numbers relies on.
-/

namespace LoraSerial.Library.SelectiveRepeat

/-- One data frame in flight: which frame, and how many had been built when it
was sent. -/
structure Data where
  index : Nat
  top : Nat

/-- One acknowledgement in flight: everything below `cum` was delivered, every
number of `sel` was held. -/
structure Ack where
  cum : Nat
  sel : Nat → Prop

/-- Both ends of one direction and the frames between them, oldest first. A
forward frame need not carry data. -/
structure State where
  built : Nat
  base : Nat
  acked : Nat → Prop
  delivered : Nat
  held : Nat → Prop
  data : List (Option Data)
  acks : List Ack

/-- The receiver has delivered or holds frame `index`. -/
def State.Has (state : State) (index : Nat) : Prop :=
  index < state.delivered ∨ state.held index

/-- Nothing built, nothing in flight. -/
def State.initial : State where
  built := 0
  base := 0
  acked := fun _ => False
  delivered := 0
  held := fun _ => False
  data := []
  acks := []

/-- What either end may do, and what the channel may do. -/
inductive Step (W : Nat) : State → State → Prop
  /-- The sender puts a new frame into its window. -/
  | build {s : State} : s.built < s.base + W → Step W s { s with built := s.built + 1 }
  /-- The sender transmits frame `index` of its window. -/
  | send {s : State} (index : Nat) : s.base ≤ index → index < s.built →
      Step W s { s with data := s.data ++ [some ⟨index, s.built⟩] }
  /-- The sender transmits a frame without data. -/
  | sendBare {s : State} : Step W s { s with data := s.data ++ [none] }
  /-- The receiver reports what it has. -/
  | report {s : State} : Step W s { s with acks := s.acks ++ [⟨s.delivered, s.held⟩] }
  | loseData {s : State} (position : Nat) :
      Step W s { s with data := s.data.eraseIdx position }
  | loseAck {s : State} (position : Nat) :
      Step W s { s with acks := s.acks.eraseIdx position }
  /-- A data frame inside the receive window is held. -/
  | hold {s : State} {p : Data} {rest : List (Option Data)} : s.data = some p :: rest →
      s.delivered ≤ p.index → p.index < s.delivered + W →
      Step W s { s with data := rest, held := fun n => s.held n ∨ n = p.index }
  /-- The receiver ignores a forward frame. -/
  | ignore {s : State} {p : Option Data} {rest : List (Option Data)} : s.data = p :: rest →
      Step W s { s with data := rest }
  /-- The receiver delivers the next frame in order. -/
  | deliver {s : State} : s.held s.delivered →
      Step W s { s with delivered := s.delivered + 1
                        held := fun n => s.held n ∧ n ≠ s.delivered }
  /-- The sender marks what an acknowledgement reports. -/
  | mark {s : State} {a : Ack} {rest : List Ack} : s.acks = a :: rest →
      Step W s { s with acks := rest
                        acked := fun n => s.acked n ∨ (n < a.cum ∨ a.sel n) }
  /-- The sender drops the acknowledged front of its window. -/
  | slide {s : State} : s.acked s.base → s.base < s.built →
      Step W s { s with base := s.base + 1 }

/-- What holds between the two ends and the frames in flight. -/
structure Invariant (W : Nat) (s : State) : Prop where
  base_le : s.base ≤ s.built
  window : s.built ≤ s.base + W
  held_window : ∀ n, s.held n → s.delivered ≤ n ∧ n < s.delivered + W
  has_built : ∀ n, s.Has n → n < s.built
  dropped_has : ∀ n, n < s.base → s.Has n
  acked_has : ∀ n, s.acked n → s.Has n
  data_built : ∀ p, some p ∈ s.data → p.index < p.top ∧ p.top ≤ s.built
  data_window : ∀ p, some p ∈ s.data → p.top ≤ p.index + W
  data_near : ∀ p, some p ∈ s.data → p.index < s.delivered + 2 * W
  /-- FIFO: whatever the receiver has was sent before what is still in flight. -/
  data_has : ∀ p, some p ∈ s.data → ∀ n, s.Has n → n < p.top
  data_order : s.data.Pairwise fun p q => ∀ x y, p = some x → q = some y → x.top ≤ y.top
  ack_delivered : ∀ a ∈ s.acks, a.cum ≤ s.delivered
  ack_sel : ∀ a ∈ s.acks, ∀ n, a.sel n → s.Has n ∧ n < a.cum + W
  /-- FIFO: whatever the sender knows was reported before what is in flight. -/
  ack_known : ∀ a ∈ s.acks, ∀ n, n < s.base ∨ s.acked n → n < a.cum + W
  ack_order : s.acks.Pairwise fun a b => a.cum ≤ b.cum

theorem invariant_initial (W : Nat) : Invariant W State.initial where
  base_le := le_rfl
  window := Nat.zero_le _
  held_window := fun _ held => held.elim
  has_built := fun n has => has.elim (fun below => absurd below (Nat.not_lt_zero n)) False.elim
  dropped_has := fun n below => absurd below (Nat.not_lt_zero n)
  acked_has := fun _ acked => acked.elim
  data_built := by simp [State.initial]
  data_window := by simp [State.initial]
  data_near := by simp [State.initial]
  data_has := by simp [State.initial]
  data_order := List.Pairwise.nil
  ack_delivered := by simp [State.initial]
  ack_sel := by simp [State.initial]
  ack_known := by simp [State.initial]
  ack_order := List.Pairwise.nil

namespace Invariant

variable {W : Nat} {s : State}

/-! ### Distances -/

theorem has_lt_window (valid : Invariant W s) {n : Nat} (has : s.Has n) :
    n < s.delivered + W ∨ n < s.delivered := by
  rcases has with below | held
  · exact Or.inr below
  · exact Or.inl (valid.held_window n held).2

theorem delivered_le_built (valid : Invariant W s) : s.delivered ≤ s.built := by
  rcases Nat.eq_zero_or_pos s.delivered with zero | positive
  · omega
  · have := valid.has_built (s.delivered - 1) (Or.inl (by omega))
    omega

/-- The sender is at most one window ahead of the receiver. -/
theorem base_le_delivered (valid : Invariant W s) : s.base ≤ s.delivered + W := by
  rcases Nat.eq_zero_or_pos s.base with zero | positive
  · omega
  · rcases valid.has_lt_window (valid.dropped_has (s.base - 1) (by omega)) with near | below <;>
      omega

/-- A data frame in flight is at most one window behind the receiver. -/
theorem delivered_le_index (valid : Invariant W s) {p : Data} (inFlight : some p ∈ s.data) :
    s.delivered ≤ p.index + W := by
  rcases Nat.eq_zero_or_pos s.delivered with zero | positive
  · omega
  · have sent := valid.data_has p inFlight (s.delivered - 1) (Or.inl (by omega))
    have recent := valid.data_window p inFlight
    omega

/-- An acknowledgement in flight is at most one window behind the sender. -/
theorem base_le_cum (valid : Invariant W s) {a : Ack} (inFlight : a ∈ s.acks) :
    s.base ≤ a.cum + W := by
  rcases Nat.eq_zero_or_pos s.base with zero | positive
  · omega
  · have known := valid.ack_known a inFlight (s.base - 1) (Or.inl (by omega))
    omega

theorem cum_le_built (valid : Invariant W s) {a : Ack} (inFlight : a ∈ s.acks) :
    a.cum ≤ s.built :=
  (valid.ack_delivered a inFlight).trans valid.delivered_le_built

/-- Safety: the sender drops only frames the receiver has. -/
theorem has_of_lt_base (valid : Invariant W s) {n : Nat} (dropped : n < s.base) : s.Has n :=
  valid.dropped_has n dropped

end Invariant

/-! ### Preservation -/

private theorem has_deliver_iff {s : State} (next : s.held s.delivered) (n : Nat) :
    (n < s.delivered + 1 ∨ (s.held n ∧ n ≠ s.delivered)) ↔ s.Has n := by
  constructor
  · rintro (below | ⟨held, -⟩)
    · rcases Nat.lt_succ_iff_lt_or_eq.mp below with earlier | rfl
      · exact Or.inl earlier
      · exact Or.inr next
    · exact Or.inr held
  · rintro (below | held)
    · exact Or.inl (by omega)
    · by_cases same : n = s.delivered
      · exact Or.inl (by omega)
      · exact Or.inr ⟨held, same⟩

namespace Invariant

variable {W : Nat} {s : State}

/-- Losing or consuming forward frames keeps the invariant. -/
theorem of_data_sublist (valid : Invariant W s) {data : List (Option Data)}
    (fewer : data.Sublist s.data) : Invariant W { s with data := data } :=
  { valid with
    data_built := fun p member => valid.data_built p (fewer.subset member)
    data_window := fun p member => valid.data_window p (fewer.subset member)
    data_near := fun p member => valid.data_near p (fewer.subset member)
    data_has := fun p member => valid.data_has p (fewer.subset member)
    data_order := valid.data_order.sublist fewer }

/-- Losing acknowledgements keeps the invariant. -/
theorem of_acks_sublist (valid : Invariant W s) {acks : List Ack}
    (fewer : acks.Sublist s.acks) : Invariant W { s with acks := acks } :=
  { valid with
    ack_delivered := fun a member => valid.ack_delivered a (fewer.subset member)
    ack_sel := fun a member => valid.ack_sel a (fewer.subset member)
    ack_known := fun a member => valid.ack_known a (fewer.subset member)
    ack_order := valid.ack_order.sublist fewer }

theorem build (valid : Invariant W s) (room : s.built < s.base + W) :
    Invariant W { s with built := s.built + 1 } :=
  { valid with
    base_le := valid.base_le.trans (Nat.le_succ _)
    window := room
    has_built := fun n has => (valid.has_built n has).trans (Nat.lt_succ_self _)
    data_built := fun p member =>
      ⟨(valid.data_built p member).1, (valid.data_built p member).2.trans (Nat.le_succ _)⟩ }

theorem send (valid : Invariant W s) {index : Nat} (above : s.base ≤ index)
    (below : index < s.built) :
    Invariant W { s with data := s.data ++ [some ⟨index, s.built⟩] } := by
  have recent := valid.window
  have ahead := valid.base_le_delivered
  have cases : ∀ {p}, some p ∈ s.data ++ [some ⟨index, s.built⟩] →
      some p ∈ s.data ∨ p = ⟨index, s.built⟩ := by
    intro p member
    simpa using member
  refine { valid with
    data_built := fun p member => ?_
    data_window := fun p member => ?_
    data_near := fun p member => ?_
    data_has := fun p member n has => ?_
    data_order := ?_ }
  · rcases cases member with old | rfl
    · exact valid.data_built p old
    · exact ⟨below, le_rfl⟩
  · rcases cases member with old | rfl
    · exact valid.data_window p old
    · change s.built ≤ index + W
      omega
  · rcases cases member with old | rfl
    · exact valid.data_near p old
    · change index < s.delivered + 2 * W
      omega
  · rcases cases member with old | rfl
    · exact valid.data_has p old n has
    · exact valid.has_built n has
  · refine List.pairwise_append.mpr ⟨valid.data_order, List.pairwise_singleton _ _, ?_⟩
    rintro p oldMember q newMember x y rfl rfl
    obtain rfl : y = ⟨index, s.built⟩ := by simpa using newMember
    exact (valid.data_built x oldMember).2

theorem sendBare (valid : Invariant W s) : Invariant W { s with data := s.data ++ [none] } := by
  have old : ∀ {p}, some p ∈ s.data ++ [none] → some p ∈ s.data := by
    intro p member
    simpa using member
  exact { valid with
    data_built := fun p member => valid.data_built p (old member)
    data_window := fun p member => valid.data_window p (old member)
    data_near := fun p member => valid.data_near p (old member)
    data_has := fun p member => valid.data_has p (old member)
    data_order := List.pairwise_append.mpr ⟨valid.data_order, List.pairwise_singleton _ _, by
      rintro p - q newMember x y - rfl
      simp at newMember⟩ }

theorem report (valid : Invariant W s) :
    Invariant W { s with acks := s.acks ++ [⟨s.delivered, s.held⟩] } := by
  have cases : ∀ {a}, a ∈ s.acks ++ [⟨s.delivered, s.held⟩] →
      a ∈ s.acks ∨ a = ⟨s.delivered, s.held⟩ := by
    intro a member
    simpa using member
  refine { valid with
    ack_delivered := fun a member => ?_
    ack_sel := fun a member n selected => ?_
    ack_known := fun a member n known => ?_
    ack_order := ?_ }
  · rcases cases member with old | rfl
    · exact valid.ack_delivered a old
    · exact le_rfl
  · rcases cases member with old | rfl
    · exact valid.ack_sel a old n selected
    · exact ⟨Or.inr selected, (valid.held_window n selected).2⟩
  · rcases cases member with old | rfl
    · exact valid.ack_known a old n known
    · have has : s.Has n := known.elim (valid.dropped_has n) (valid.acked_has n)
      change n < s.delivered + W
      rcases valid.has_lt_window has with near | below <;> omega
  · refine List.pairwise_append.mpr ⟨valid.ack_order, List.pairwise_singleton _ _, ?_⟩
    intro a old b new
    obtain rfl := List.mem_singleton.mp new
    exact valid.ack_delivered a old

theorem hold (valid : Invariant W s) {p : Data} {rest : List (Option Data)}
    (arrived : s.data = some p :: rest) (above : s.delivered ≤ p.index)
    (below : p.index < s.delivered + W) :
    Invariant W { s with data := rest, held := fun n => s.held n ∨ n = p.index } := by
  have first : some p ∈ s.data := by rw [arrived]; exact List.mem_cons_self
  have order := arrived ▸ valid.data_order
  have later : ∀ q, some q ∈ rest → p.top ≤ q.top := fun q member =>
    (List.pairwise_cons.mp order).1 _ member p q rfl rfl
  have consumed := valid.of_data_sublist (arrived ▸ List.sublist_cons_self (some p) rest)
  have widen : ∀ {n}, s.Has n → n < s.delivered ∨ (s.held n ∨ n = p.index) :=
    fun has => has.imp id Or.inl
  have narrow : ∀ {n}, (n < s.delivered ∨ (s.held n ∨ n = p.index)) →
      s.Has n ∨ n = p.index := fun has => or_assoc.mpr has
  refine { consumed with
    held_window := fun n held => ?_
    has_built := fun n has => ?_
    dropped_has := fun n dropped => widen (valid.dropped_has n dropped)
    acked_has := fun n acked => widen (valid.acked_has n acked)
    data_has := fun q member n has => ?_
    ack_sel := fun a member n selected =>
      ⟨widen (valid.ack_sel a member n selected).1, (valid.ack_sel a member n selected).2⟩ }
  · rcases held with held | rfl
    · exact valid.held_window n held
    · exact ⟨above, below⟩
  · rcases narrow has with had | rfl
    · exact valid.has_built n had
    · obtain ⟨sent, built⟩ := valid.data_built p first
      exact Nat.lt_of_lt_of_le sent built
  · rcases narrow has with had | rfl
    · exact consumed.data_has q member n had
    · exact Nat.lt_of_lt_of_le (valid.data_built p first).1 (later q member)

theorem deliver (valid : Invariant W s) (next : s.held s.delivered) :
    Invariant W { s with delivered := s.delivered + 1
                         held := fun n => s.held n ∧ n ≠ s.delivered } := by
  have same := has_deliver_iff next
  refine { valid with
    held_window := fun n held => ?_
    has_built := fun n has => valid.has_built n ((same n).mp has)
    dropped_has := fun n dropped => (same n).mpr (valid.dropped_has n dropped)
    acked_has := fun n acked => (same n).mpr (valid.acked_has n acked)
    data_near := fun p member => ?_
    data_has := fun p member n has => valid.data_has p member n ((same n).mp has)
    ack_delivered := fun a member => (valid.ack_delivered a member).trans (Nat.le_succ _)
    ack_sel := fun a member n selected =>
      ⟨(same n).mpr (valid.ack_sel a member n selected).1,
        (valid.ack_sel a member n selected).2⟩ }
  · obtain ⟨above, below⟩ := valid.held_window n held.1
    have different := held.2
    change s.delivered + 1 ≤ n ∧ n < s.delivered + 1 + W
    omega
  · have near := valid.data_near p member
    change p.index < s.delivered + 1 + 2 * W
    omega

theorem mark (valid : Invariant W s) {a : Ack} {rest : List Ack} (arrived : s.acks = a :: rest) :
    Invariant W { s with acks := rest
                         acked := fun n => s.acked n ∨ (n < a.cum ∨ a.sel n) } := by
  have first : a ∈ s.acks := by rw [arrived]; exact List.mem_cons_self
  have later : ∀ b ∈ rest, a.cum ≤ b.cum :=
    (List.pairwise_cons.mp (arrived ▸ valid.ack_order)).1
  have consumed := valid.of_acks_sublist (arrived ▸ List.sublist_cons_self a rest)
  refine { consumed with
    acked_has := fun n acked => ?_
    ack_known := fun b member n known => ?_ }
  · rcases acked with old | below | selected
    · exact valid.acked_has n old
    · exact Or.inl (Nat.lt_of_lt_of_le below (valid.ack_delivered a first))
    · exact (valid.ack_sel a first n selected).1
  · have later := later b member
    rcases known with dropped | old | below | selected
    · exact consumed.ack_known b member n (Or.inl dropped)
    · exact consumed.ack_known b member n (Or.inr old)
    · omega
    · have near := (valid.ack_sel a first n selected).2
      omega

theorem slide (valid : Invariant W s) (acked : s.acked s.base) (below : s.base < s.built) :
    Invariant W { s with base := s.base + 1 } := by
  have recent := valid.window
  refine { valid with
    base_le := below
    window := by change s.built ≤ s.base + 1 + W; omega
    dropped_has := fun n dropped => ?_
    ack_known := fun a member n known => ?_ }
  · rcases Nat.lt_succ_iff_lt_or_eq.mp dropped with earlier | rfl
    · exact valid.dropped_has n earlier
    · exact valid.acked_has _ acked
  · rcases known with dropped | old
    · rcases Nat.lt_succ_iff_lt_or_eq.mp dropped with earlier | rfl
      · exact valid.ack_known a member n (Or.inl earlier)
      · exact valid.ack_known a member _ (Or.inr acked)
    · exact valid.ack_known a member n (Or.inr old)

theorem step (valid : Invariant W s) {t : State} (step : Step W s t) : Invariant W t := by
  cases step with
  | build room => exact valid.build room
  | send index above below => exact valid.send above below
  | sendBare => exact valid.sendBare
  | report => exact valid.report
  | loseData position => exact valid.of_data_sublist (List.eraseIdx_sublist _ _)
  | loseAck position => exact valid.of_acks_sublist (List.eraseIdx_sublist _ _)
  | hold arrived above below => exact valid.hold arrived above below
  | @ignore p rest arrived =>
      exact valid.of_data_sublist (arrived ▸ List.sublist_cons_self p rest)
  | deliver next => exact valid.deliver next
  | mark arrived => exact valid.mark arrived
  | slide acked below => exact valid.slide acked below

/-- The invariant over any number of steps. -/
theorem steps (valid : Invariant W s) {t : State}
    (run : Relation.ReflTransGen (Step W) s t) : Invariant W t := by
  induction run with
  | refl => exact valid
  | tail _ step inductionHypothesis => exact inductionHypothesis.step step

end Invariant

/-! ### What the receiver has -/

/-- The receiver keeps what it has and delivers in order. -/
theorem Step.has {W : Nat} {s t : State} (step : Step W s t) :
    s.delivered ≤ t.delivered ∧ ∀ n, s.Has n → t.Has n := by
  cases step with
  | build | send | sendBare | report | loseData | loseAck | ignore | mark | slide =>
      exact ⟨Nat.le_refl _, fun _ has => has⟩
  | hold => exact ⟨Nat.le_refl _, fun _ has => has.imp id Or.inl⟩
  | deliver next => exact ⟨Nat.le_succ _, fun n has => (has_deliver_iff next n).mpr has⟩

theorem Step.has_steps {W : Nat} {s t : State} (run : Relation.ReflTransGen (Step W) s t) :
    s.delivered ≤ t.delivered ∧ ∀ n, s.Has n → t.Has n := by
  induction run with
  | refl => exact ⟨Nat.le_refl _, fun _ has => has⟩
  | tail _ step inductionHypothesis =>
      exact ⟨inductionHypothesis.1.trans step.has.1,
        fun n has => step.has.2 n (inductionHypothesis.2 n has)⟩

/-! ### Repeated steps -/

/-- The sender builds as many frames as its window has room for. -/
theorem Step.builds {W : Nat} (s : State) (count : Nat) (room : s.built + count ≤ s.base + W) :
    Relation.ReflTransGen (Step W) s { s with built := s.built + count } := by
  induction count with
  | zero => exact .refl
  | succ count inductionHypothesis =>
      have room : s.built + count < s.base + W := by omega
      exact (inductionHypothesis (Nat.le_of_lt room)).tail
        (@Step.build W { s with built := s.built + count } room)

/-- The sender drops an acknowledged front of any length. -/
theorem Step.slides {W : Nat} (s : State) (count : Nat)
    (acked : ∀ n < count, s.acked (s.base + n)) (below : s.base + count ≤ s.built) :
    Relation.ReflTransGen (Step W) s { s with base := s.base + count } := by
  induction count with
  | zero => exact .refl
  | succ count inductionHypothesis =>
      have earlier := inductionHypothesis (fun n less => acked n (by omega)) (by omega)
      exact earlier.tail (@Step.slide W { s with base := s.base + count }
        (acked count (Nat.lt_succ_self count)) (by change s.base + count < s.built; omega))

/-- The sender has marked what the oldest acknowledgement reports and dropped
`front` frames. -/
def State.acknowledged (s : State) (a : Ack) (rest : List Ack) (front : Nat) : State :=
  { s with
    acks := rest
    acked := fun n => s.acked n ∨ (n < a.cum ∨ a.sel n)
    base := s.base + front }

/-- An acknowledgement is marked, then the window slides. -/
theorem Step.acknowledges {W : Nat} {s : State} {a : Ack} {rest : List Ack} {front : Nat}
    (arrived : s.acks = a :: rest)
    (acked : ∀ n < front, s.acked (s.base + n) ∨ (s.base + n < a.cum ∨ a.sel (s.base + n)))
    (below : s.base + front ≤ s.built) :
    Relation.ReflTransGen (Step W) s (s.acknowledged a rest front) := by
  have slid := @Step.slides W (s.acknowledged a rest 0) front acked below
  exact Relation.ReflTransGen.head (Step.mark arrived) slid

/-- A receiver that has nothing reports so any number of times. -/
def State.silent (count : Nat) : State :=
  { State.initial with acks := List.replicate count ⟨0, fun _ => False⟩ }

theorem invariant_silent (W count : Nat) : Invariant W (State.silent count) := by
  induction count with
  | zero => exact invariant_initial W
  | succ count inductionHypothesis =>
      have reported := inductionHypothesis.step .report
      rw [State.silent, List.replicate_succ']
      exact reported

end LoraSerial.Library.SelectiveRepeat
