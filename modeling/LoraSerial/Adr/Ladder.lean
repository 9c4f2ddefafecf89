import Mathlib.Data.List.Basic
import Mathlib.Order.Basic
import Mathlib.Tactic.ByContra

/-!
Owns the mode ladder of the adaptive data rate: which preset is faster, more robust, or fast
enough for an SNR. Signal levels are of any type with an addition and an order test; the mode
index -1 is `none`.
-/

namespace LoraSerial.Adr

/-- Parallel tables indexed by mode. -/
structure Ladder (F : Type) where
  count : Nat
  snrFloor : Nat → F
  isFsk : Nat → Bool
  /-- No table: every preset may be picked. -/
  autoOk : Option (Nat → Bool)
  marginDb : F

namespace Ladder

variable {F : Type}

/-- `IsFsk`, which checks its index; `isFsk` is the table. -/
def fskAt (ladder : Ladder F) (i : Nat) : Bool :=
  decide (i < ladder.count) && ladder.isFsk i

/-- `AutoOk` -/
def autoOkAt (ladder : Ladder F) (i : Nat) : Bool :=
  decide (i < ladder.count) &&
    match ladder.autoOk with
    | none => true
    | some table => table i

def rank (ladder : Ladder F) : Option Nat → Int
  | none => -1000
  | some i => if ladder.isFsk i then 1000 else -i

def faster (ladder : Ladder F) (a b : Option Nat) : Bool :=
  ladder.rank b < ladder.rank a

def ludicrous (ladder : Ladder F) : Option Nat :=
  (List.range ladder.count).find? ladder.isFsk

def fastestAutoLora (ladder : Ladder F) : Option Nat :=
  (List.range ladder.count).find? fun i => !ladder.isFsk i && ladder.autoOkAt i

def lastLora (ladder : Ladder F) : Option Nat :=
  (List.range ladder.count).foldl (fun last i => if ladder.isFsk i then last else some i) none

def moreRobust (ladder : Ladder F) (i : Nat) : Option Nat :=
  if ladder.fskAt i then ladder.fastestAutoLora
  else
    match ladder.lastLora with
    | none => some i
    | some last => if i < last then some (i + 1) else some i

/-! ### What the functions return -/

/-- A LoRa preset that 'auto' may pick. -/
def AutoLora (ladder : Ladder F) (i : Nat) : Prop :=
  i < ladder.count ∧ ladder.isFsk i = false ∧ ladder.autoOkAt i = true

instance (ladder : Ladder F) (i : Nat) : Decidable (ladder.AutoLora i) :=
  inferInstanceAs (Decidable (_ ∧ _))

variable {ladder : Ladder F}

theorem ludicrous_some {i : Nat} (found : ladder.ludicrous = some i) :
    i < ladder.count ∧ ladder.isFsk i = true :=
  ⟨List.mem_range.mp (List.mem_of_find?_eq_some found), List.find?_some found⟩

theorem fastestAutoLora_some {i : Nat} (found : ladder.fastestAutoLora = some i) :
    ladder.AutoLora i := by
  have test := List.find?_some found
  rw [Bool.and_eq_true, Bool.not_eq_true'] at test
  exact ⟨List.mem_range.mp (List.mem_of_find?_eq_some found), test.1, test.2⟩

theorem fastestAutoLora_eq_none :
    ladder.fastestAutoLora = none ↔ ∀ i, ¬ladder.AutoLora i := by
  unfold fastestAutoLora AutoLora
  rw [List.find?_eq_none]
  simp only [List.mem_range, Bool.and_eq_true, Bool.not_eq_true', not_and, Bool.not_eq_true]

theorem lastLora_some {last : Nat} (found : ladder.lastLora = some last) :
    last < ladder.count ∧ ladder.isFsk last = false ∧
      ∀ i < ladder.count, ladder.isFsk i = false → i ≤ last := by
  unfold lastLora at found
  generalize ladder.count = total at found ⊢
  induction total generalizing last with
  | zero => cases found
  | succ total inductionHypothesis =>
      rw [List.range_succ, List.foldl_append, List.foldl_cons, List.foldl_nil] at found
      split at found
      next fsk =>
        obtain ⟨inside, lora, greatest⟩ := inductionHypothesis found
        refine ⟨Nat.lt_succ_of_lt inside, lora, fun i below plain => greatest i ?_ plain⟩
        have other : i ≠ total := by
          rintro rfl
          rw [fsk] at plain
          cases plain
        omega
      next lora =>
        obtain rfl := Option.some.inj found
        exact ⟨Nat.lt_succ_self _, Bool.eq_false_iff.mpr lora,
          fun i below _ => Nat.le_of_lt_succ below⟩

theorem lastLora_none (absent : ladder.lastLora = none) {i : Nat} (inside : i < ladder.count) :
    ladder.isFsk i = true := by
  unfold lastLora at absent
  generalize ladder.count = total at absent inside
  induction total generalizing i with
  | zero => exact absurd inside (Nat.not_lt_zero i)
  | succ total inductionHypothesis =>
      rw [List.range_succ, List.foldl_append, List.foldl_cons, List.foldl_nil] at absent
      split at absent
      next fsk =>
        rcases Nat.lt_succ_iff_lt_or_eq.mp inside with below | rfl
        · exact inductionHypothesis absent below
        · exact fsk
      next => cases absent

/-- One preset down: to LoRa from GFSK, to the next index from LoRa, or nowhere. -/
theorem moreRobust_cases (ladder : Ladder F) {i : Nat} (inside : i < ladder.count) :
    (ladder.isFsk i = true ∧ ladder.moreRobust i = ladder.fastestAutoLora) ∨
      ∃ last, ladder.isFsk i = false ∧ ladder.lastLora = some last ∧
        ((i < last ∧ ladder.moreRobust i = some (i + 1)) ∨
          (i = last ∧ ladder.moreRobust i = some i)) := by
  have test : ladder.fskAt i = ladder.isFsk i := by simp [fskAt, inside]
  cases fsk : ladder.isFsk i with
  | true => exact Or.inl ⟨rfl, by simp [moreRobust, test, fsk]⟩
  | false =>
      cases found : ladder.lastLora with
      | none =>
          rw [lastLora_none found inside] at fsk
          cases fsk
      | some last =>
          have most := (lastLora_some found).2.2 i inside fsk
          refine Or.inr ⟨last, rfl, rfl, ?_⟩
          simp only [moreRobust, test, fsk, found, Bool.false_eq_true, if_false]
          split
          next below => exact Or.inl ⟨below, rfl⟩
          next above => exact Or.inr ⟨by omega, rfl⟩

/-- The LoRa presets come first, a GFSK preset last. -/
def GfskLast (ladder : Ladder F) : Prop :=
  ∀ i < ladder.count, ladder.isFsk i = true → i + 1 = ladder.count

theorem rank_of_lora {i : Nat} (lora : ladder.isFsk i = false) :
    ladder.rank (some i) = -(i : Int) := by
  rw [rank, lora]
  rfl

/-- Below the last LoRa preset every preset is LoRa. -/
theorem GfskLast.lora_of_le (sorted : ladder.GfskLast) {last i : Nat}
    (found : ladder.lastLora = some last) (below : i ≤ last) : ladder.isFsk i = false := by
  obtain ⟨inside, lora, -⟩ := lastLora_some found
  by_contra fsk
  have final := sorted i (by omega) (Bool.not_eq_false _ ▸ fsk)
  obtain rfl : last = i := by omega
  exact fsk lora

/-- One preset down is slower, except at the bottom. -/
theorem GfskLast.moreRobust_slower (sorted : ladder.GfskLast) {i : Nat} (inside : i < ladder.count)
    (moves : ladder.moreRobust i ≠ some i) :
    ladder.rank (ladder.moreRobust i) < ladder.rank (some i) := by
  rcases ladder.moreRobust_cases inside with
    ⟨fsk, fastest⟩ | ⟨last, lora, found, ⟨below, next⟩ | ⟨-, stays⟩⟩
  · have top : ladder.rank (some i) = 1000 := by rw [rank, if_pos fsk]
    rw [fastest, top]
    cases target : ladder.fastestAutoLora with
    | none => exact (by decide : (-1000 : Int) < 1000)
    | some mode =>
        rw [rank_of_lora (fastestAutoLora_some target).2.1]
        omega
  · rw [next, rank_of_lora lora, rank_of_lora (sorted.lora_of_le found below)]
    omega
  · exact absurd stays moves

/-- Nothing is slower than the preset below which there is none. -/
theorem slower_of_bottom {bottom i : Nat} (inside : bottom < ladder.count)
    (stays : ladder.moreRobust bottom = some bottom) (iInside : i < ladder.count)
    (lora : ladder.isFsk i = false) : ladder.rank (some bottom) ≤ ladder.rank (some i) := by
  rcases ladder.moreRobust_cases inside with
    ⟨fsk, fastest⟩ | ⟨last, bottomLora, found, ⟨below, next⟩ | ⟨rfl, -⟩⟩
  · have target := (fastestAutoLora_some (fastest.symm.trans stays)).2.1
    rw [fsk] at target
    cases target
  · have same := Option.some.inj (next.symm.trans stays)
    omega
  · have most := (lastLora_some found).2.2 i iInside lora
    rw [rank_of_lora bottomLora, rank_of_lora lora]
    omega

/-! ### The SNR target -/

variable [Add F] [LE F] [DecidableLE F]

/-- The loop of `PickBySnr` over the modes left, with the last eligible one so far. -/
def pickLoop (ladder : Ladder F) (snr : F) : List Nat → Option Nat → Option Nat
  | [], lastLora => lastLora
  | i :: rest, lastLora =>
      if ladder.isFsk i || !ladder.autoOkAt i then pickLoop ladder snr rest lastLora
      else if ladder.snrFloor i + ladder.marginDb ≤ snr then some i
      else pickLoop ladder snr rest (some i)

def pickBySnr (ladder : Ladder F) (snr : F) : Option Nat :=
  ladder.pickLoop snr (List.range ladder.count) ladder.fastestAutoLora

/-- The loop returns an eligible preset, or what it started with. -/
theorem pickLoop_cases (snr : F) (modes : List Nat) (inside : ∀ i ∈ modes, i < ladder.count)
    (start : Option Nat) :
    ladder.pickLoop snr modes start = start ∨
      ∃ i, ladder.pickLoop snr modes start = some i ∧ ladder.AutoLora i := by
  induction modes generalizing start with
  | nil => exact Or.inl rfl
  | cons i rest inductionHypothesis =>
      have later := inductionHypothesis fun j member => inside j (List.mem_cons_of_mem _ member)
      rw [pickLoop]
      split
      next => exact later start
      next eligible =>
        rw [Bool.or_eq_true, not_or, Bool.not_eq_true, Bool.not_eq_true', Bool.not_eq_false]
          at eligible
        have here : ladder.AutoLora i := ⟨inside i List.mem_cons_self, eligible⟩
        split
        next => exact Or.inr ⟨i, rfl, here⟩
        next =>
          rcases later (some i) with same | found
          · exact Or.inr ⟨i, same, here⟩
          · exact Or.inr found

/-- The SNR target is a preset that 'auto' may pick, unless there is none. -/
theorem pickBySnr_cases (ladder : Ladder F) (snr : F) :
    (ladder.pickBySnr snr = none ∧ ladder.fastestAutoLora = none) ∨
      ∃ i, ladder.pickBySnr snr = some i ∧ ladder.AutoLora i := by
  rcases pickLoop_cases snr (List.range ladder.count) (fun i => List.mem_range.mp)
    ladder.fastestAutoLora with same | found
  · cases fastest : ladder.fastestAutoLora with
    | none => exact Or.inl ⟨same.trans fastest, rfl⟩
    | some i => exact Or.inr ⟨i, same.trans fastest, fastestAutoLora_some fastest⟩
  · exact Or.inr found

end Ladder

end LoraSerial.Adr
