import LoraSerial.Heatshrink.Config

/-!
Owns the match search of the heatshrink encoder: the index of previous occurrences and
`find_longest_match` in both its forms, along the index and byte by byte. The two find the
same match, which is the nearest among the longest in the window.
-/

namespace LoraSerial.Heatshrink

/-! ## The index -/

/-- `for (i = 0; i < end; i++)` of `do_indexing`, from `i` on. -/
def indexingLoop (data : List UInt8) :
    (left i : Nat) → (last index : List Int) → List Int
  | 0, _, _, index => index
  | left + 1, i, last, index =>
      let v := (data.getD i 0).toNat
      let lv := last.getD v (-1)
      indexingLoop data left (i + 1) (last.set v i) (index.set i lv)

/-- Flattened linked lists of the previous instances of every byte below `stop`. -/
def doIndexing (data : List UInt8) (stop : Nat) (index : List Int) : List Int :=
  indexingLoop data stop 0 (List.replicate 256 (-1)) index

/-! ## The search -/

/-- `match_maxlen` and `match_index`; MATCH_NOT_FOUND is `none`. -/
structure BestMatch where
  maxlen : Nat
  index : Option Nat
deriving DecidableEq, Repr

section Search

variable (buf : List UInt8) (start stop maxlen : Nat)

/-- `for (len = 1; len < maxlen; len++)`, from `len` on. -/
def matchLoop (pos : Nat) : (left len : Nat) → Nat
  | 0, len => len
  | left + 1, len =>
      if buf.getD (pos + len) 0 ≠ buf.getD (stop + len) 0 then len
      else matchLoop pos left (len + 1)

/-- The search along the index; `none` when the fuel does not last. -/
def indexedScan (index : List Int) : Nat → (pos : Int) → BestMatch → Option BestMatch
  | 0, _, _ => none
  | fuel + 1, pos, best =>
      if pos - start < 0 then some best
      else if buf.getD (pos.toNat + best.maxlen) 0 ≠ buf.getD (stop + best.maxlen) 0 then
        indexedScan index fuel (index.getD pos.toNat (-1)) best
      else
        let len := matchLoop buf stop pos.toNat (maxlen - 1) 1
        if best.maxlen < len then
          let best : BestMatch := { maxlen := len, index := some pos.toNat }
          if len = maxlen then some best
          else indexedScan index fuel (index.getD pos.toNat (-1)) best
        else indexedScan index fuel (index.getD pos.toNat (-1)) best

/-- The search without an index, over the positions below `above`. -/
def plainScan : (above : Nat) → BestMatch → BestMatch
  | 0, best => best
  | pos + 1, best =>
      if pos < start then best
      else if buf.getD (pos + best.maxlen) 0 = buf.getD (stop + best.maxlen) 0 ∧
          buf.getD pos 0 = buf.getD stop 0 then
        let len := matchLoop buf stop pos (maxlen - 1) 1
        if best.maxlen < len then
          let best : BestMatch := { maxlen := len, index := some pos }
          if len = maxlen then best else plainScan pos best
        else plainScan pos best
      else plainScan pos best

/-- A match pays when it is longer than its own back reference. -/
def breakEven (best : BestMatch) : Option (Nat × Nat) :=
  let breakEvenPoint := 1 + windowBits + lookaheadBits
  if breakEvenPoint / 8 < best.maxlen then
    best.index.map fun index => (stop - index, best.maxlen)
  else none

/-- `find_longest_match` with HEATSHRINK_USE_INDEX: the distance and the length. -/
def findLongestMatch (index : List Int) : Option (Nat × Nat) :=
  match indexedScan buf start stop maxlen index (stop + 1) (index.getD stop (-1))
      { maxlen := 0, index := none } with
  | some best => breakEven stop best
  | none => none

/-- `find_longest_match` without HEATSHRINK_USE_INDEX. -/
def findLongestMatchPlain : Option (Nat × Nat) :=
  breakEven stop (plainScan buf start stop maxlen stop { maxlen := 0, index := none })

end Search

/-! ## The index lists previous occurrences -/

/-- The last position below `above` that holds `v`, or -1. -/
def previous (data : List UInt8) (v : UInt8) : (above : Nat) → Int
  | 0 => -1
  | pos + 1 => if data.getD pos 0 = v then pos else previous data v pos

theorem previous_lt (data : List UInt8) (v : UInt8) (above : Nat) :
    previous data v above < above := by
  induction above with
  | zero => exact Int.negSucc_lt_zero 0
  | succ pos inductionHypothesis =>
      rw [previous]
      split <;> omega

/-- What the loop knows before it looks at position `i`. -/
private structure Indexed (data : List UInt8) (i : Nat) (last index : List Int) : Prop where
  lastLength : last.length = 256
  last_eq : ∀ v : UInt8, last.getD v.toNat (-1) = previous data v i
  index_eq : ∀ pos, pos < i → index.getD pos (-1) = previous data (data.getD pos 0) pos

private theorem Indexed.next {data : List UInt8} {i : Nat} {last index : List Int}
    (indexed : Indexed data i last index) (inside : i < index.length) :
    Indexed data (i + 1) (last.set (data.getD i 0).toNat i)
      (index.set i (last.getD (data.getD i 0).toNat (-1))) := by
  refine ⟨by rw [List.length_set, indexed.lastLength], ?_, ?_⟩
  · intro v
    have byte : (data.getD i 0).toNat < last.length := by
      rw [indexed.lastLength]
      exact UInt8.toNat_lt _
    have old := indexed.last_eq v
    rw [previous]
    by_cases same : data.getD i 0 = v
    · rw [if_pos same, ← same, List.getD_eq_getElem?_getD, List.getElem?_set_self byte,
        Option.getD_some]
    · have other : (data.getD i 0).toNat ≠ v.toNat := fun eq => same (UInt8.toNat_inj.mp eq)
      rw [if_neg same, List.getD_eq_getElem?_getD, List.getElem?_set_ne other,
        ← List.getD_eq_getElem?_getD]
      exact old
  · intro pos below
    rcases Nat.lt_succ_iff_lt_or_eq.mp below with earlier | now
    · rw [List.getD_eq_getElem?_getD, List.getElem?_set_ne (Nat.ne_of_gt earlier),
        ← List.getD_eq_getElem?_getD]
      exact indexed.index_eq pos earlier
    · subst now
      rw [List.getD_eq_getElem?_getD, List.getElem?_set_self inside, Option.getD_some]
      exact indexed.last_eq _

private theorem Indexed.run {data : List UInt8} {left i : Nat} {last index : List Int}
    (indexed : Indexed data i last index) (inside : i + left ≤ index.length) :
    ∀ pos, pos < i + left → (indexingLoop data left i last index).getD pos (-1) =
      previous data (data.getD pos 0) pos := by
  induction left generalizing i last index with
  | zero => exact indexed.index_eq
  | succ left inductionHypothesis =>
      intro pos below
      exact inductionHypothesis (indexed.next (by omega)) (by rw [List.length_set]; omega) pos
        (by omega)

theorem length_indexingLoop (data : List UInt8) (left i : Nat) (last index : List Int) :
    (indexingLoop data left i last index).length = index.length := by
  induction left generalizing i last index with
  | zero => rfl
  | succ left inductionHypothesis =>
      rw [indexingLoop, inductionHypothesis, List.length_set]

theorem length_doIndexing (data : List UInt8) (stop : Nat) (index : List Int) :
    (doIndexing data stop index).length = index.length :=
  length_indexingLoop data stop 0 _ index

/-- Every entry below `stop` names the previous instance of its byte. -/
theorem getD_doIndexing {data : List UInt8} {stop : Nat} {index : List Int}
    (inside : stop ≤ index.length) {pos : Nat} (below : pos < stop) :
    (doIndexing data stop index).getD pos (-1) = previous data (data.getD pos 0) pos := by
  have start : Indexed data 0 (List.replicate 256 (-1)) index := by
    refine ⟨List.length_replicate, ?_, fun pos none => absurd none (Nat.not_lt_zero pos)⟩
    intro v
    rw [List.getD_replicate _ v.toNat_lt]
    rfl
  exact start.run (by omega) pos (by omega)

/-! ## The two searches agree -/

section Agree

variable {buf : List UInt8} {start stop maxlen : Nat} {index : List Int}

/-- From the last instance of the byte searched for, the index leads through the positions
the plain search does not skip. -/
private theorem indexedScan_previous
    (indexed : ∀ pos, pos < stop → index.getD pos (-1) = previous buf (buf.getD pos 0) pos)
    {above fuel : Nat} (below : above ≤ stop) (enough : above < fuel) (best : BestMatch) :
    indexedScan buf start stop maxlen index fuel (previous buf (buf.getD stop 0) above) best =
      some (plainScan buf start stop maxlen above best) := by
  induction above generalizing fuel best with
  | zero =>
      obtain ⟨fuel, rfl⟩ : ∃ rest, fuel = rest + 1 := ⟨fuel - 1, by omega⟩
      rw [previous, indexedScan, if_pos (by omega), plainScan]
  | succ pos inductionHypothesis =>
      have next := indexed pos (by omega)
      by_cases same : buf.getD pos 0 = buf.getD stop 0
      · obtain ⟨fuel, rfl⟩ : ∃ rest, fuel = rest + 1 := ⟨fuel - 1, by omega⟩
        have rest := fun found => inductionHypothesis (by omega) (show pos < fuel by omega) found
        rw [previous, if_pos same, indexedScan, plainScan, Int.toNat_natCast, next, same]
        by_cases outside : pos < start
        · rw [if_pos (by omega), if_pos outside]
        · rw [if_neg (by omega), if_neg outside]
          by_cases beats : buf.getD (pos + best.maxlen) 0 = buf.getD (stop + best.maxlen) 0
          · have candidate : buf.getD (pos + best.maxlen) 0 = buf.getD (stop + best.maxlen) 0 ∧
                buf.getD stop 0 = buf.getD stop 0 := ⟨beats, rfl⟩
            rw [if_neg (not_not.mpr beats), if_pos candidate]
            simp only [rest]
            by_cases better : best.maxlen < matchLoop buf stop pos (maxlen - 1) 1
            · simp only [if_pos better]
              by_cases full : matchLoop buf stop pos (maxlen - 1) 1 = maxlen
              · rw [if_pos full, if_pos full]
              · rw [if_neg full, if_neg full]
            · simp only [if_neg better]
          · rw [if_pos beats, rest, if_neg fun both => beats both.1]
      · rw [previous, if_neg same, inductionHypothesis (by omega) (by omega), plainScan]
        by_cases outside : pos < start
        · rw [if_pos outside]
          -- Below the window the plain search stops at once.
          cases pos with
          | zero => rfl
          | succ pos => rw [plainScan, if_pos (by omega)]
        · rw [if_neg outside, if_neg fun both => same both.2]

/-- The search along the index finds what the plain search finds. -/
theorem findLongestMatch_eq_plain
    (indexed : ∀ pos, pos < stop + 1 → index.getD pos (-1) = previous buf (buf.getD pos 0) pos) :
    findLongestMatch buf start stop maxlen index =
      findLongestMatchPlain buf start stop maxlen := by
  rw [findLongestMatch, indexed stop (Nat.lt_succ_self stop),
    indexedScan_previous (fun pos below => indexed pos (by omega)) (Nat.le_refl stop)
      (Nat.lt_succ_self stop)]
  rfl

end Agree

/-! ## The match found is the nearest of the longest -/

section Longest

variable {buf : List UInt8} {start stop maxlen : Nat}

/-- The bytes from `pos` on agree with those from `stop` on for `len` positions. -/
def Agrees (buf : List UInt8) (stop pos len : Nat) : Prop :=
  ∀ offset, offset < len → buf.getD (pos + offset) 0 = buf.getD (stop + offset) 0

theorem Agrees.shorter {pos len shorter : Nat} (agrees : Agrees buf stop pos len)
    (le : shorter ≤ len) : Agrees buf stop pos shorter :=
  fun offset below => agrees offset (Nat.lt_of_lt_of_le below le)

/-- The inner loop counts the agreeing bytes. -/
private theorem matchLoop_spec {pos left len : Nat} (agrees : Agrees buf stop pos len) :
    len ≤ matchLoop buf stop pos left len ∧ matchLoop buf stop pos left len ≤ len + left ∧
      Agrees buf stop pos (matchLoop buf stop pos left len) ∧
      ∀ longer, matchLoop buf stop pos left len < longer → longer ≤ len + left →
        ¬Agrees buf stop pos longer := by
  induction left generalizing len with
  | zero => exact ⟨Nat.le_refl _, Nat.le_refl _, agrees, fun longer more most => by
      rw [matchLoop] at more
      omega⟩
  | succ left inductionHypothesis =>
      rw [matchLoop]
      by_cases differs : buf.getD (pos + len) 0 ≠ buf.getD (stop + len) 0
      · rw [if_pos differs]
        exact ⟨Nat.le_refl _, by omega, agrees, fun longer more _ longMatch =>
          differs (longMatch len more)⟩
      · rw [if_neg differs]
        have extended : Agrees buf stop pos (len + 1) := by
          intro offset below
          rcases Nat.lt_succ_iff_lt_or_eq.mp below with earlier | now
          · exact agrees offset earlier
          · rw [now]
            exact not_not.mp differs
        rcases inductionHypothesis extended with ⟨least, most, found, longest⟩
        exact ⟨by omega, by omega, found, fun longer more bound =>
          longest longer more (by omega)⟩

/-- `best` is the nearest of the longest matches at the positions `above` and beyond. -/
structure Longest (buf : List UInt8) (start stop maxlen above : Nat) (best : BestMatch) :
    Prop where
  bounded : best.maxlen ≤ maxlen
  longest : ∀ pos len, start ≤ pos → above ≤ pos → pos < stop → best.maxlen < len →
    len ≤ maxlen → ¬Agrees buf stop pos len
  found : ∀ index, best.index = some index → start ≤ index ∧ index < stop ∧
    Agrees buf stop index best.maxlen ∧
    ∀ pos, index < pos → pos < stop → ¬Agrees buf stop pos best.maxlen
  named : 0 < best.maxlen → best.index.isSome

/-- A position that is no better leaves the best match as it is. -/
private theorem Longest.keep {pos : Nat} {best : BestMatch}
    (longest : Longest buf start stop maxlen (pos + 1) best)
    (worse : ∀ len, best.maxlen < len → len ≤ maxlen → ¬Agrees buf stop pos len) :
    Longest buf start stop maxlen pos best where
  bounded := longest.bounded
  longest := by
    intro other len inWindow beyond before longer bound
    rcases Nat.eq_or_lt_of_le beyond with same | later
    · rw [← same]
      exact worse len longer bound
    · exact longest.longest other len inWindow later before longer bound
  found := longest.found
  named := longest.named

/-- A better position becomes the best match. -/
private theorem Longest.replace {pos len : Nat} {best : BestMatch}
    (longest : Longest buf start stop maxlen (pos + 1) best) (inWindow : start ≤ pos)
    (before : pos < stop) (better : best.maxlen < len) (bound : len ≤ maxlen)
    (agrees : Agrees buf stop pos len)
    (most : ∀ longer, len < longer → longer ≤ maxlen → ¬Agrees buf stop pos longer) :
    Longest buf start stop maxlen pos { maxlen := len, index := some pos } where
  bounded := bound
  longest := by
    intro other longer start' beyond before' more fits
    rcases Nat.eq_or_lt_of_le beyond with same | later
    · rw [← same]
      exact most longer more fits
    · exact longest.longest other longer start' later before' (Nat.lt_trans better more) fits
  found := by
    intro index eq
    cases eq
    exact ⟨inWindow, before, agrees, fun other later before' =>
      longest.longest other len (by omega) later before' better bound⟩
  named := fun _ => rfl

/-- A match of full length cannot be beaten further on. -/
private theorem Longest.full {pos : Nat} {best : BestMatch}
    (longest : Longest buf start stop maxlen pos best) (full : best.maxlen = maxlen) :
    Longest buf start stop maxlen 0 best where
  bounded := longest.bounded
  longest := fun _ _ _ _ _ more fits => absurd fits (by omega)
  found := longest.found
  named := longest.named

private theorem plainScan_longest (positive : 0 < maxlen) {above : Nat} (below : above ≤ stop)
    {best : BestMatch} (longest : Longest buf start stop maxlen above best)
    (unfilled : best.maxlen < maxlen) :
    Longest buf start stop maxlen 0 (plainScan buf start stop maxlen above best) := by
  induction above generalizing best with
  | zero => exact longest
  | succ pos inductionHypothesis =>
      rw [plainScan]
      by_cases outside : pos < start
      · rw [if_pos outside]
        exact ⟨longest.bounded, fun other len inWindow _ before more fits =>
          longest.longest other len inWindow (by omega) before more fits, longest.found,
          longest.named⟩
      · rw [if_neg outside]
        by_cases candidate : buf.getD (pos + best.maxlen) 0 = buf.getD (stop + best.maxlen) 0 ∧
            buf.getD pos 0 = buf.getD stop 0
        · rw [if_pos candidate]
          have single : Agrees buf stop pos 1 := by
            intro offset none
            rw [Nat.lt_one_iff.mp none]
            exact candidate.2
          rcases @matchLoop_spec buf stop pos (maxlen - 1) 1 single with
            ⟨least, most, agrees, maximal⟩
          rw [show 1 + (maxlen - 1) = maxlen by omega] at most maximal
          by_cases better : best.maxlen < matchLoop buf stop pos (maxlen - 1) 1
          · have replaced := longest.replace (by omega) (by omega) better most agrees maximal
            simp only [if_pos better]
            by_cases full : matchLoop buf stop pos (maxlen - 1) 1 = maxlen
            · rw [if_pos full]
              exact replaced.full full
            · rw [if_neg full]
              exact inductionHypothesis (by omega) replaced (Nat.lt_of_le_of_ne most full)
          · simp only [if_neg better]
            exact inductionHypothesis (by omega)
              (longest.keep fun len more fits => maximal len (by omega) fits) unfilled
        · rw [if_neg candidate]
          refine inductionHypothesis (by omega) (longest.keep fun len more _ agrees => ?_) unfilled
          exact candidate ⟨agrees best.maxlen more, agrees 0 (by omega)⟩

/-- The back reference `distance`, `length` is the nearest of the longest in the window, and
pays. -/
structure NearestLongest (buf : List UInt8) (start stop maxlen distance length : Nat) : Prop where
  positive : 1 ≤ distance
  inWindow : start + distance ≤ stop
  pays : 1 < length
  bounded : length ≤ maxlen
  agrees : Agrees buf stop (stop - distance) length
  longest : ∀ other longer, 1 ≤ other → start + other ≤ stop → length < longer →
    longer ≤ maxlen → ¬Agrees buf stop (stop - other) longer
  nearest : ∀ nearer, 1 ≤ nearer → nearer < distance → ¬Agrees buf stop (stop - nearer) length

/-- There is only one such back reference. -/
theorem NearestLongest.unique {distance length distance' length' : Nat}
    (left : NearestLongest buf start stop maxlen distance length)
    (right : NearestLongest buf start stop maxlen distance' length') :
    distance = distance' ∧ length = length' := by
  have same : length = length' := by
    rcases Nat.lt_trichotomy length length' with shorter | same | longer
    · exact absurd right.agrees (left.longest distance' length' right.positive right.inWindow
        shorter right.bounded)
    · exact same
    · exact absurd left.agrees (right.longest distance length left.positive left.inWindow longer
        left.bounded)
  refine ⟨?_, same⟩
  rcases Nat.lt_trichotomy distance distance' with nearer | same' | further
  · exact absurd (same ▸ left.agrees) (right.nearest distance left.positive nearer)
  · exact same'
  · exact absurd (same ▸ right.agrees) (left.nearest distance' right.positive further)

/-- The plain search finds the nearest of the longest matches, or says that none pays. -/
theorem findLongestMatchPlain_spec (positive : 0 < maxlen) :
    match findLongestMatchPlain buf start stop maxlen with
    | some (distance, length) => NearestLongest buf start stop maxlen distance length
    | none => ∀ distance length, 1 ≤ distance → start + distance ≤ stop → 1 < length →
        length ≤ maxlen → ¬Agrees buf stop (stop - distance) length := by
  have begin : Longest buf start stop maxlen stop { maxlen := 0, index := none } :=
    ⟨Nat.zero_le _, fun _ _ _ beyond before => absurd before (by omega),
      fun _ named => absurd named (by simp), fun more => absurd more (Nat.lt_irrefl 0)⟩
  have found := plainScan_longest positive (Nat.le_refl stop) begin positive
  rw [findLongestMatchPlain, breakEven]
  cases scanned : plainScan buf start stop maxlen stop { maxlen := 0, index := none } with
  | mk best index =>
      rw [scanned] at found
      have bounded : best ≤ maxlen := found.bounded
      by_cases pays : 1 < best
      · rw [if_pos (show (1 + windowBits + lookaheadBits) / 8 < best from pays)]
        cases index with
        | none => exact absurd (found.named (Nat.lt_trans Nat.zero_lt_one pays)) (by simp)
        | some index =>
            rcases found.found index rfl with ⟨inWindow, before, agrees, nearest⟩
            have back : stop - (stop - index) = index := by omega
            refine ⟨by omega, by omega, pays, bounded, ?_, ?_, ?_⟩
            · rw [back]
              exact agrees
            · exact fun other longer near inside more fits =>
                found.longest (stop - other) longer (by omega) (Nat.zero_le _) (by omega) more
                  fits
            · exact fun nearer near closer => nearest (stop - nearer) (by omega) (by omega)
      · rw [if_neg (show ¬(1 + windowBits + lookaheadBits) / 8 < best from pays)]
        exact fun distance length near inside more fits =>
          found.longest (stop - distance) length (by omega) (Nat.zero_le _) (by omega)
            (by simp only; omega) fits

theorem findLongestMatchPlain_eq_some (positive : 0 < maxlen) {distance length : Nat} :
    findLongestMatchPlain buf start stop maxlen = some (distance, length) ↔
      NearestLongest buf start stop maxlen distance length := by
  have spec := @findLongestMatchPlain_spec buf start stop maxlen positive
  constructor
  · intro found
    rw [found] at spec
    exact spec
  · intro nearest
    cases found : findLongestMatchPlain buf start stop maxlen with
    | none =>
        rw [found] at spec
        exact absurd nearest.agrees (spec distance length nearest.positive nearest.inWindow
          nearest.pays nearest.bounded)
    | some result =>
        rw [found] at spec
        rcases result with ⟨distance', length'⟩
        rcases NearestLongest.unique spec nearest with ⟨rfl, rfl⟩
        rfl

end Longest

/-- Over the index that `do_indexing` builds from whatever the memory held, the search agrees
with the one without an index: it finds the nearest of the longest matches in the window that
pay, and nothing if there is none. -/
theorem findLongestMatch_doIndexing {buf : List UInt8} {start stop maxlen count : Nat}
    {index : List Int} (indexed : stop < count) (room : count ≤ index.length)
    (positive : 0 < maxlen) :
    findLongestMatch buf start stop maxlen (doIndexing buf count index) =
        findLongestMatchPlain buf start stop maxlen ∧
      ∀ distance length, findLongestMatch buf start stop maxlen (doIndexing buf count index) =
          some (distance, length) ↔
        NearestLongest buf start stop maxlen distance length := by
  have previous : ∀ pos, pos < stop + 1 → (doIndexing buf count index).getD pos (-1) =
      previous buf (buf.getD pos 0) pos :=
    fun pos below => getD_doIndexing room (by omega)
  rw [findLongestMatch_eq_plain previous]
  exact ⟨rfl, fun _ _ => findLongestMatchPlain_eq_some positive⟩

/-- The second byte repeats the first one three times; the match may overlap itself. -/
theorem findLongestMatch_doIndexing_repeat :
    (1 < 4 ∧ 4 ≤ (List.replicate 4 (0 : Int)).length ∧ 0 < 3) ∧
      findLongestMatch [7, 7, 7, 7] 0 1 3 (doIndexing [7, 7, 7, 7] 4 (List.replicate 4 0)) =
          findLongestMatchPlain [7, 7, 7, 7] 0 1 3 ∧
        (findLongestMatch [7, 7, 7, 7] 0 1 3 (doIndexing [7, 7, 7, 7] 4 (List.replicate 4 0)) =
            some (1, 3) ↔
          NearestLongest [7, 7, 7, 7] 0 1 3 1 3) :=
  ⟨by decide, (findLongestMatch_doIndexing (by decide) (by decide) (by decide)).1,
    (findLongestMatch_doIndexing (by decide) (by decide) (by decide)).2 1 3⟩

end LoraSerial.Heatshrink
