import Mathlib.Data.Nat.Notation
import Mathlib.Tactic.TypeStar

/-!
Owns runs of a deterministic machine, given by its step function: conditions on every
step of a run, and the rules that carry an invariant along a run.
-/

namespace LoraSerial.Library.Run

variable {σ α : Type*} {step : σ → α → σ} {holds fine : σ → α → Prop} {invariant : σ → Prop}

/-- `holds` at every step of a run. -/
def Along (step : σ → α → σ) (holds : σ → α → Prop) : σ → List α → Prop
  | _, [] => True
  | state, action :: rest => holds state action ∧ Along step holds (step state action) rest

instance decidableAlong [∀ state action, Decidable (holds state action)] :
    ∀ (state : σ) (actions : List α), Decidable (Along step holds state actions)
  | _, [] => .isTrue trivial
  | state, action :: rest =>
      have : Decidable (Along step holds (step state action) rest) := decidableAlong _ rest
      inferInstanceAs (Decidable (holds state action ∧ Along step holds (step state action) rest))

@[simp] theorem along_nil (state : σ) : Along step holds state [] := trivial

theorem along_cons {state : σ} {action : α} {rest : List α} :
    Along step holds state (action :: rest) ↔
      holds state action ∧ Along step holds (step state action) rest :=
  Iff.rfl

theorem along_append {state : σ} {first second : List α} :
    Along step holds state (first ++ second) ↔
      Along step holds state first ∧ Along step holds (first.foldl step state) second := by
  induction first generalizing state with
  | nil => simp
  | cons action rest inductionHypothesis =>
      rw [List.cons_append, along_cons, along_cons, inductionHypothesis, List.foldl_cons, and_assoc]

/-- What every action of a run meets on its own. -/
theorem along_of_mem {allowed : α → Prop} {state : σ} {actions : List α}
    (every : ∀ action ∈ actions, allowed action) :
    Along step (fun _ action => allowed action) state actions := by
  induction actions generalizing state with
  | nil => trivial
  | cons action rest inductionHypothesis =>
      exact ⟨every action List.mem_cons_self,
        inductionHypothesis fun later member => every later (List.mem_cons_of_mem _ member)⟩

theorem forall_mem_of_along {allowed : α → Prop} {state : σ} {actions : List α}
    (along : Along step (fun _ action => allowed action) state actions) :
    ∀ action ∈ actions, allowed action := by
  induction actions generalizing state with
  | nil => exact fun action none => absurd none List.not_mem_nil
  | cons action rest inductionHypothesis =>
      exact List.forall_mem_cons.mpr ⟨along.1, inductionHypothesis along.2⟩

/-- Two conditions agree along a run when they agree wherever an invariant holds that
the second condition keeps. -/
theorem along_iff
    (agrees : ∀ state action, invariant state → (holds state action ↔ fine state action))
    (keeps : ∀ state action, invariant state → fine state action →
      invariant (step state action))
    {state : σ} (start : invariant state) (actions : List α) :
    Along step holds state actions ↔ Along step fine state actions := by
  induction actions generalizing state with
  | nil => exact Iff.rfl
  | cons action rest inductionHypothesis =>
      rw [along_cons, along_cons, agrees state action start]
      exact and_congr_right fun ok => inductionHypothesis (keeps state action start ok)

/-- What every step of a run meets under an invariant follows along the run. -/
theorem Along.imp
    (meets : ∀ state action, invariant state → fine state action → holds state action)
    (keeps : ∀ state action, invariant state → fine state action →
      invariant (step state action))
    {state : σ} (start : invariant state) {actions : List α}
    (along : Along step fine state actions) :
    Along step holds state actions := by
  induction actions generalizing state with
  | nil => trivial
  | cons action rest inductionHypothesis =>
      exact ⟨meets state action start along.1,
        inductionHypothesis (keeps state action start along.1) along.2⟩

theorem Along.mono (meets : ∀ state action, fine state action → holds state action)
    {state : σ} {actions : List α} (along : Along step fine state actions) :
    Along step holds state actions :=
  along.imp (fun state action (_ : (fun _ : σ => True) state) => meets state action)
    (fun _ _ _ _ => trivial) trivial

/-- An invariant that every step of a run keeps holds at its end. -/
theorem Along.invariant_foldl
    (keeps : ∀ state action, invariant state → fine state action →
      invariant (step state action))
    {state : σ} (start : invariant state) {actions : List α}
    (along : Along step fine state actions) :
    invariant (actions.foldl step state) := by
  induction actions generalizing state with
  | nil => exact start
  | cons action rest inductionHypothesis =>
      exact inductionHypothesis (keeps state action start along.1) along.2

/-- Every state a run reaches, as a condition on its steps. -/
theorem forall_prefix_iff {state : σ} {actions : List α} :
    (∀ before, before <+: actions → invariant (before.foldl step state)) ↔
      invariant state ∧ Along step (fun state action => invariant (step state action)) state
        actions := by
  induction actions generalizing state with
  | nil =>
      refine ⟨fun every => ⟨every [] List.nil_prefix, trivial⟩, ?_⟩
      rintro ⟨start, -⟩ before none
      rw [List.prefix_nil.mp none]
      exact start
  | cons action rest inductionHypothesis =>
      constructor
      · intro every
        have later := inductionHypothesis.mp fun before inside =>
          every (action :: before) (List.cons_prefix_cons.mpr ⟨rfl, inside⟩)
        exact ⟨every [] List.nil_prefix, later⟩
      · rintro ⟨start, later⟩ before inside
        cases before with
        | nil => exact start
        | cons first others =>
            obtain ⟨rfl, tailInside⟩ := List.cons_prefix_cons.mp inside
            exact inductionHypothesis.mpr later others tailInside

/-- A run of a machine that another one is seen through. -/
theorem Along.lift {τ : Type*} {move : τ → α → τ} {view : τ → σ}
    (commutes : ∀ state action, view (move state action) = step (view state) action)
    {state : τ} {actions : List α} (along : Along step holds (view state) actions) :
    Along move (fun state action => holds (view state) action) state actions := by
  induction actions generalizing state with
  | nil => trivial
  | cons action rest inductionHypothesis =>
      refine ⟨along.1, inductionHypothesis ?_⟩
      rw [commutes]
      exact along.2

/-- A run meets a condition throughout, or up to a first step that does not. -/
theorem along_or_first (step : σ → α → σ) (holds : σ → α → Prop)
    [∀ state action, Decidable (holds state action)] (state : σ) (actions : List α) :
    Along step holds state actions ∨ ∃ before action after,
      actions = before ++ action :: after ∧ Along step holds state before ∧
        ¬holds (before.foldl step state) action := by
  induction actions generalizing state with
  | nil => exact Or.inl trivial
  | cons action rest inductionHypothesis =>
      by_cases here : holds state action
      · rcases inductionHypothesis (step state action) with
          along | ⟨before, first, after, rfl, along, fails⟩
        · exact Or.inl ⟨here, along⟩
        · exact Or.inr ⟨action :: before, first, after, rfl, ⟨here, along⟩, fails⟩
      · exact Or.inr ⟨[], action, rest, rfl, trivial, here⟩

/-- Two conditions that a run meets throughout. -/
theorem Along.and {state : σ} {actions : List α} (first : Along step holds state actions)
    (second : Along step fine state actions) :
    Along step (fun state action => holds state action ∧ fine state action) state actions := by
  induction actions generalizing state with
  | nil => trivial
  | cons action rest inductionHypothesis =>
      exact ⟨⟨first.1, second.1⟩, inductionHypothesis first.2 second.2⟩

end LoraSerial.Library.Run
