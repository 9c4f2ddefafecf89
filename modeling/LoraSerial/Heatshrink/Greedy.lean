import LoraSerial.Heatshrink.Encoder

/-!
Owns what the heatshrink encoder is for, without buffers and states: the greedy parse of a
whole text, which takes at each position the nearest of the longest matches in the window
before it. The parse expands to the text, every token fits its fields, and it spends at most
nine bits on a byte.
-/

namespace LoraSerial.Heatshrink

open Library.BitStream Library.Lzss

/-- The text behind a window of zeros. -/
def padded (text : List UInt8) : List UInt8 :=
  List.replicate inputBufSize 0 ++ text

theorem getD_padded (text : List UInt8) (pos : Nat) :
    (padded text).getD (inputBufSize + pos) 0 = text.getD pos 0 := by
  rw [padded, List.getD_append_right _ _ _ _ (by rw [List.length_replicate]; omega),
    List.length_replicate, Nat.add_sub_cancel_left]

/-- The match taken at `pos`, if one pays. -/
def nextMatch (text : List UInt8) (pos : Nat) : Option (Nat × Nat) :=
  findLongestMatchPlain (padded text) pos (inputBufSize + pos)
    (min lookaheadSize (text.length - pos))

theorem nextMatch_eq_some {text : List UInt8} {pos : Nat} (inside : pos < text.length)
    {distance length : Nat} :
    nextMatch text pos = some (distance, length) ↔
      NearestLongest (padded text) pos (inputBufSize + pos)
        (min lookaheadSize (text.length - pos)) distance length := by
  have left : 0 < text.length - pos := Nat.sub_pos_of_lt inside
  exact findLongestMatchPlain_eq_some (Nat.lt_min.mpr ⟨by decide, left⟩)

/-- The greedy parse of the text from `pos` on. -/
def greedy (text : List UInt8) (pos : Nat) : List Token :=
  if _ : pos < text.length then
    match found : nextMatch text pos with
    | some (distance, length) => .backref distance length :: greedy text (pos + length)
    | none => .literal (text.getD pos 0) :: greedy text (pos + 1)
  else []
termination_by text.length - pos
decreasing_by
  · have inside := ‹pos < text.length›
    have pays := ((nextMatch_eq_some inside).mp found).pays
    omega
  · omega

theorem greedy_end {text : List UInt8} {pos : Nat} (beyond : text.length ≤ pos) :
    greedy text pos = [] := by
  rw [greedy, dif_neg (by omega)]

theorem greedy_backref {text : List UInt8} {pos distance length : Nat}
    (inside : pos < text.length) (found : nextMatch text pos = some (distance, length)) :
    greedy text pos = .backref distance length :: greedy text (pos + length) := by
  rw [greedy, dif_pos inside]
  split
  next found' =>
    rw [found] at found'
    cases found'
    rfl
  next none =>
    rw [found] at none
    cases none

theorem greedy_literal {text : List UInt8} {pos : Nat} (inside : pos < text.length)
    (none : nextMatch text pos = none) :
    greedy text pos = .literal (text.getD pos 0) :: greedy text (pos + 1) := by
  rw [greedy, dif_pos inside]
  split
  next found =>
    rw [none] at found
    cases found
  next => rfl

/-- A greedy parse is a literal or a back reference, and the parse of the rest. -/
theorem greedy_induction (text : List UInt8) {motive : Nat → Prop}
    (beyond : ∀ pos, text.length ≤ pos → motive pos)
    (literal : ∀ pos, pos < text.length → nextMatch text pos = none → motive (pos + 1) →
      motive pos)
    (backref : ∀ pos distance length, pos < text.length →
      nextMatch text pos = some (distance, length) → motive (pos + length) → motive pos)
    (pos : Nat) : motive pos := by
  induction left : text.length - pos using Nat.strong_induction_on generalizing pos with
  | _ left inductionHypothesis =>
      by_cases inside : pos < text.length
      · cases found : nextMatch text pos with
        | none =>
            exact literal pos inside found (inductionHypothesis _ (by omega) (pos + 1) rfl)
        | some result =>
            rcases result with ⟨distance, length⟩
            have pays := ((nextMatch_eq_some inside).mp found).pays
            exact backref pos distance length inside found
              (inductionHypothesis _ (by omega) (pos + length) rfl)
      · exact beyond pos (by omega)

/-! ## The parse stands for the text -/

theorem fits_of_nextMatch {text : List UInt8} {pos distance length : Nat}
    (inside : pos < text.length) (found : nextMatch text pos = some (distance, length)) :
    1 ≤ distance ∧ distance ≤ inputBufSize ∧ 1 < length ∧ length ≤ lookaheadSize ∧
      pos + length ≤ text.length := by
  have nearest := (nextMatch_eq_some inside).mp found
  have positive := nearest.positive
  have inWindow := nearest.inWindow
  have pays := nearest.pays
  have bounded := nearest.bounded
  omega

theorem greedy_fits (text : List UInt8) (pos : Nat) :
    ∀ token ∈ greedy text pos, token.Fits windowBits lookaheadBits := by
  induction pos using greedy_induction text with
  | beyond pos beyond =>
      intro token mem
      rw [greedy_end beyond] at mem
      cases mem
  | literal pos inside none rest =>
      intro token mem
      rw [greedy_literal inside none] at mem
      rcases List.mem_cons.mp mem with rfl | later
      · trivial
      · exact rest token later
  | backref pos distance length inside found rest =>
      intro token mem
      rw [greedy_backref inside found] at mem
      rcases fits_of_nextMatch inside found with ⟨positive, near, pays, short, -⟩
      rcases List.mem_cons.mp mem with rfl | later
      · exact ⟨positive, near, Nat.le_of_lt pays, short⟩
      · exact rest token later

/-- Expanding the parse behind what comes before it gives the text. -/
theorem expand_greedy (text : List UInt8) {pos : Nat} (reached : pos ≤ text.length) :
    expand (greedy text pos) (text.take pos).reverse = text.reverse := by
  induction pos using greedy_induction text with
  | beyond pos beyond =>
      rw [greedy_end beyond, List.take_of_length_le beyond]
      rfl
  | literal pos inside none rest =>
      rw [greedy_literal inside none, expand, ← rest (by omega),
        List.take_succ_eq_append_getElem inside, List.reverse_append,
        List.getD_eq_getElem _ _ inside]
      rfl
  | backref pos distance length inside found rest =>
      have nearest := (nextMatch_eq_some inside).mp found
      rcases fits_of_nextMatch inside found with ⟨positive, near, -, -, within⟩
      rw [greedy_backref inside found, expand, ← rest within]
      congr 1
      refine copyBack_match positive near within fun offset below => ?_
      have agrees := nearest.agrees offset below
      rw [← getD_padded text (pos + offset), ← Nat.add_assoc, ← agrees,
        show inputBufSize + pos - distance + offset = inputBufSize + pos + offset - distance by
          omega, padded]

/-- A literal costs nine bits, a back reference thirteen for at least two bytes. -/
theorem length_spell_greedy (text : List UInt8) (pos : Nat) :
    (spell windowBits lookaheadBits (greedy text pos)).length ≤ 9 * (text.length - pos) := by
  induction pos using greedy_induction text with
  | beyond pos beyond =>
      rw [greedy_end beyond]
      exact Nat.zero_le _
  | literal pos inside none rest =>
      rw [greedy_literal inside none, spell_cons, List.length_append, Token.spell,
        List.length_cons, length_byteBits]
      omega
  | backref pos distance length inside found rest =>
      rcases fits_of_nextMatch inside found with ⟨-, -, pays, -, within⟩
      rw [greedy_backref inside found, spell_cons, List.length_append, Token.spell,
        List.length_cons, List.length_append, length_field, length_field]
      simp only [windowBits, lookaheadBits] at rest ⊢
      omega

/-! ## Decisions do not depend on what comes later -/

/-- Two buffers that agree up to the end of the lookahead have the same best match. -/
theorem NearestLongest.transport {buf other : List UInt8} {base start stop maxlen : Nat}
    (same : ∀ index, index < stop + maxlen → buf.getD index 0 = other.getD (base + index) 0)
    {distance length : Nat} :
    NearestLongest buf start stop maxlen distance length ↔
      NearestLongest other (base + start) (base + stop) maxlen distance length := by
  have agrees : ∀ back len, 1 ≤ back → start + back ≤ stop → len ≤ maxlen →
      (Agrees buf stop (stop - back) len ↔
        Agrees other (base + stop) (base + stop - back) len) := by
    intro back len positive inWindow bound
    have shifted : base + stop - back = base + (stop - back) := by omega
    rw [shifted]
    refine forall₂_congr fun offset below => ?_
    rw [same (stop - back + offset) (by omega), same (stop + offset) (by omega), Nat.add_assoc,
      Nat.add_assoc]
  constructor
  · intro nearest
    refine ⟨nearest.positive, by have := nearest.inWindow; omega, nearest.pays,
      nearest.bounded, ?_, ?_, ?_⟩
    · exact (agrees _ _ nearest.positive nearest.inWindow nearest.bounded).mp nearest.agrees
    · intro back longer positive inWindow more fits found
      exact nearest.longest back longer positive (by omega) more fits
        ((agrees _ _ positive (by omega) fits).mpr found)
    · intro nearer positive closer found
      have inWindow := nearest.inWindow
      exact nearest.nearest nearer positive closer
        ((agrees _ _ positive (by omega) nearest.bounded).mpr found)
  · intro nearest
    have inWindow := nearest.inWindow
    refine ⟨nearest.positive, by omega, nearest.pays, nearest.bounded, ?_, ?_, ?_⟩
    · exact (agrees _ _ nearest.positive (by omega) nearest.bounded).mpr nearest.agrees
    · intro back longer positive inside more fits found
      exact nearest.longest back longer positive (by omega) more fits
        ((agrees _ _ positive inside fits).mp found)
    · intro nearer positive closer found
      exact nearest.nearest nearer positive closer
        ((agrees _ _ positive (by omega) nearest.bounded).mp found)

end LoraSerial.Heatshrink
