import LoraSerial.Library.BitStream

/-!
Owns the meaning of an LZSS stream over bytes: literals and back references, what they
expand to behind a window of zeros, the bits that spell them and the parse of a bit stream.
Parsing what was spelled gives the tokens back, also in front of zero padding shorter than a
back reference. `resume` is what a decoder that stopped inside a token still has to say.
-/

namespace LoraSerial.Library.Lzss

open BitStream

inductive Token where
  | literal (byte : UInt8)
  | backref (distance length : Nat)
deriving DecidableEq, Repr

/-- Copy `length` bytes from `distance` back. `history` lists the bytes so far, the last one
first; zeros lie before them. -/
def copyBack (distance : Nat) : (length : Nat) → (history : List UInt8) → List UInt8
  | 0, history => history
  | length + 1, history => copyBack distance length (history.getD (distance - 1) 0 :: history)

/-- The history after some tokens. -/
def expand : List Token → List UInt8 → List UInt8
  | [], history => history
  | .literal byte :: rest, history => expand rest (byte :: history)
  | .backref distance length :: rest, history => expand rest (copyBack distance length history)

section Bits

variable (indexBits countBits : Nat)

/-- A tag bit, then the byte, or distance and length less one. -/
def Token.spell : Token → List Bool
  | .literal byte => true :: byteBits byte
  | .backref distance length =>
      false :: (field indexBits (distance - 1) ++ field countBits (length - 1))

def spell (tokens : List Token) : List Bool :=
  tokens.flatMap (Token.spell indexBits countBits)

/-- The distance and the length have their fields. -/
def Token.Fits : Token → Prop
  | .literal _ => True
  | .backref distance length =>
      1 ≤ distance ∧ distance ≤ 2 ^ indexBits ∧ 1 ≤ length ∧ length ≤ 2 ^ countBits

/-- The whole tokens a bit stream starts with. -/
def parse : List Bool → List Token
  | [] => []
  | true :: stream =>
      if stream.length < 8 then []
      else .literal (UInt8.ofNat (value (stream.take 8))) :: parse (stream.drop 8)
  | false :: stream =>
      if stream.length < indexBits + countBits then []
      else
        .backref (value (stream.take indexBits) + 1)
          (value ((stream.drop indexBits).take countBits) + 1) ::
            parse (stream.drop (indexBits + countBits))
termination_by stream => stream.length
decreasing_by
  all_goals
    simp only [List.length_drop, List.length_cons]
    omega

/-- The bytes a bit stream stands for. -/
def decode (stream : List Bool) : List UInt8 :=
  (expand (parse indexBits countBits stream) []).reverse

end Bits

/-! ## Expansion -/

theorem expand_append (left right : List Token) (history : List UInt8) :
    expand (left ++ right) history = expand right (expand left history) := by
  induction left generalizing history with
  | nil => rfl
  | cons token rest inductionHypothesis =>
      cases token with
      | literal byte => exact inductionHypothesis _
      | backref distance length => exact inductionHypothesis _

theorem copyBack_succ (distance length : Nat) (history : List UInt8) :
    copyBack distance (length + 1) history =
      (copyBack distance length history).getD (distance - 1) 0 ::
        copyBack distance length history := by
  induction length generalizing history with
  | zero => rfl
  | succ length inductionHypothesis =>
      rw [copyBack, inductionHypothesis]
      rfl

/-- A byte at most `window` back, in the text behind `window` zeros. -/
theorem getD_reverse_take {window distance position : Nat} {text : List UInt8}
    (positive : 1 ≤ distance) (reach : distance ≤ window) (inside : position ≤ text.length) :
    (text.take position).reverse.getD (distance - 1) 0 =
      (List.replicate window 0 ++ text).getD (window + position - distance) 0 := by
  by_cases written : distance ≤ position
  · rw [List.getD_append_right _ _ _ _ (by rw [List.length_replicate]; omega),
      List.length_replicate, List.getD_eq_getElem?_getD, List.getD_eq_getElem?_getD,
      List.getElem?_reverse (by rw [List.length_take]; omega), List.length_take,
      List.getElem?_take_of_lt (by omega)]
    congr 2
    omega
  · rw [List.getD_append _ _ _ _ (by rw [List.length_replicate]; omega),
      List.getD_eq_default _ _ (by rw [List.length_reverse, List.length_take]; omega),
      List.getD_eq_getElem?_getD, List.getElem?_replicate, if_pos (by omega), Option.getD_some]

/-- Copying a match extends one prefix of the text to a longer one. -/
theorem copyBack_match {window distance position length : Nat} {text : List UInt8}
    (positive : 1 ≤ distance) (reach : distance ≤ window)
    (inside : position + length ≤ text.length)
    (same : ∀ offset, offset < length →
      (List.replicate window 0 ++ text).getD (window + position + offset - distance) 0 =
        text.getD (position + offset) 0) :
    copyBack distance length (text.take position).reverse =
      (text.take (position + length)).reverse := by
  induction length with
  | zero => rfl
  | succ length inductionHypothesis =>
      have shorter := inductionHypothesis (by omega) fun offset below =>
        same offset (Nat.lt_succ_of_lt below)
      have next := same length (Nat.lt_succ_self length)
      rw [copyBack_succ, shorter, getD_reverse_take positive reach (by omega),
        ← Nat.add_assoc window, next, ← Nat.add_assoc position,
        List.getD_eq_getElem _ _ (show position + length < text.length by omega),
        List.take_succ_eq_append_getElem (show position + length < text.length by omega),
        List.reverse_append]
      rfl

theorem suffix_copyBack (distance length : Nat) (history : List UInt8) :
    history <:+ copyBack distance length history := by
  induction length with
  | zero => exact List.suffix_refl history
  | succ length inductionHypothesis =>
      rw [copyBack_succ]
      exact inductionHypothesis.trans (List.suffix_cons _ _)

/-- Expanding adds to the history. -/
theorem suffix_expand (tokens : List Token) (history : List UInt8) :
    history <:+ expand tokens history := by
  induction tokens generalizing history with
  | nil => exact List.suffix_refl history
  | cons token rest inductionHypothesis =>
      cases token with
      | literal byte => exact (List.suffix_cons byte history).trans (inductionHypothesis _)
      | backref distance length =>
          exact (suffix_copyBack distance length history).trans (inductionHypothesis _)

/-! ## Parsing what was spelled -/

section Bits

variable {indexBits countBits : Nat}

theorem spell_append (left right : List Token) :
    spell indexBits countBits (left ++ right) =
      spell indexBits countBits left ++ spell indexBits countBits right :=
  List.flatMap_append

theorem spell_cons (token : Token) (rest : List Token) :
    spell indexBits countBits (token :: rest) =
      token.spell indexBits countBits ++ spell indexBits countBits rest :=
  List.flatMap_cons

theorem parse_literal (stream : List Bool) :
    parse indexBits countBits (true :: stream) =
      if stream.length < 8 then []
      else
        .literal (UInt8.ofNat (value (stream.take 8))) ::
          parse indexBits countBits (stream.drop 8) := by
  rw [parse]

theorem parse_backref (stream : List Bool) :
    parse indexBits countBits (false :: stream) =
      if stream.length < indexBits + countBits then []
      else
        .backref (value (stream.take indexBits) + 1)
          (value ((stream.drop indexBits).take countBits) + 1) ::
            parse indexBits countBits (stream.drop (indexBits + countBits)) := by
  rw [parse]

/-- A token is parsed off the front of the stream it was put on. -/
theorem parse_spell_cons {token : Token} (fits : token.Fits indexBits countBits)
    (stream : List Bool) :
    parse indexBits countBits (token.spell indexBits countBits ++ stream) =
      token :: parse indexBits countBits stream := by
  cases token with
  | literal byte =>
      have long : ¬(byteBits byte ++ stream).length < 8 := by simp
      rw [Token.spell, List.cons_append, parse_literal, if_neg long,
        List.take_left' (length_byteBits byte), List.drop_left' (length_byteBits byte),
        ofNat_value_byteBits]
  | backref distance length =>
      rcases fits with ⟨positive, near, nonempty, short⟩
      have long : ¬(field indexBits (distance - 1) ++ field countBits (length - 1) ++
          stream).length < indexBits + countBits := by simp
      have rest : (field indexBits (distance - 1) ++ field countBits (length - 1) ++
          stream).drop (indexBits + countBits) = stream := List.drop_left' (by simp)
      have index : value (field indexBits (distance - 1)) = distance - 1 :=
        value_field (by omega)
      have count : value (field countBits (length - 1)) = length - 1 := value_field (by omega)
      rw [Token.spell, List.cons_append, parse_backref, if_neg long, rest, List.append_assoc,
        List.take_left' (length_field _ _),
        List.drop_left' (length_field _ _), List.take_left' (length_field _ _), index, count,
        Nat.sub_add_cancel positive, Nat.sub_add_cancel nonempty]

/-- Zero padding shorter than a back reference is no token. -/
theorem parse_padding {width : Nat} (short : width ≤ indexBits + countBits) :
    parse indexBits countBits (List.replicate width false) = [] := by
  cases width with
  | zero => rw [List.replicate_zero, parse]
  | succ width => rw [List.replicate_succ, parse, if_pos (by rw [List.length_replicate]; omega)]

theorem parse_spell {tokens : List Token} (fits : ∀ token ∈ tokens, token.Fits indexBits countBits)
    {width : Nat} (short : width ≤ indexBits + countBits) :
    parse indexBits countBits (spell indexBits countBits tokens ++ List.replicate width false) =
      tokens := by
  induction tokens with
  | nil => exact parse_padding short
  | cons token rest inductionHypothesis =>
      rw [spell_cons, List.append_assoc, parse_spell_cons (fits token List.mem_cons_self),
        inductionHypothesis fun later mem => fits later (List.mem_cons_of_mem token mem)]

/-- Decoding the spelled and padded tokens of a text gives the text. -/
theorem decode_spell {tokens : List Token}
    (fits : ∀ token ∈ tokens, token.Fits indexBits countBits) {width : Nat}
    (short : width ≤ indexBits + countBits) {text : List UInt8}
    (expands : expand tokens [] = text.reverse) :
    decode indexBits countBits (spell indexBits countBits tokens ++ List.replicate width false) =
      text := by
  rw [decode, parse_spell fits short, expands, List.reverse_reverse]

end Bits

/-! ## A decoder that stopped inside a token -/

/-- Where a decoder stands: before a tag, a literal, an index or a count, or while it
copies. -/
inductive Phase where
  | tag
  | literal
  | index
  | count (distance : Nat)
  | copy (distance length : Nat)

section Bits

variable (indexBits countBits : Nat)

/-- The history once the bits ahead are used up. -/
def resume : Phase → (ahead : List Bool) → (history : List UInt8) → List UInt8
  | .tag, ahead, history => expand (parse indexBits countBits ahead) history
  | .literal, ahead, history =>
      expand (parse indexBits countBits (true :: ahead)) history
  | .index, ahead, history =>
      expand (parse indexBits countBits (false :: ahead)) history
  | .count distance, ahead, history =>
      if ahead.length < countBits then history
      else
        expand (parse indexBits countBits (ahead.drop countBits))
          (copyBack distance (value (ahead.take countBits) + 1) history)
  | .copy distance length, ahead, history =>
      expand (parse indexBits countBits ahead) (copyBack distance length history)

variable {indexBits countBits}

theorem resume_tag (bit : Bool) (ahead : List Bool) (history : List UInt8) :
    resume indexBits countBits .tag (bit :: ahead) history =
      resume indexBits countBits (if bit then .literal else .index) ahead history := by
  cases bit <;> rfl

theorem resume_literal {ahead : List Bool} (enough : 8 ≤ ahead.length) (history : List UInt8) :
    resume indexBits countBits .literal ahead history =
      resume indexBits countBits .tag (ahead.drop 8)
        (UInt8.ofNat (value (ahead.take 8)) :: history) := by
  show expand (parse indexBits countBits (true :: ahead)) history = _
  rw [parse_literal, if_neg (by omega)]
  rfl

theorem resume_index {ahead : List Bool} (enough : indexBits ≤ ahead.length)
    (history : List UInt8) :
    resume indexBits countBits .index ahead history =
      resume indexBits countBits (.count (value (ahead.take indexBits) + 1))
        (ahead.drop indexBits) history := by
  rw [resume, resume, parse_backref, List.length_drop]
  by_cases short : ahead.length < indexBits + countBits
  · rw [if_pos short, if_pos (by omega)]
    rfl
  · rw [if_neg short, if_neg (by omega), List.drop_drop]
    rfl

theorem resume_count {distance : Nat} {ahead : List Bool} (enough : countBits ≤ ahead.length)
    (history : List UInt8) :
    resume indexBits countBits (.count distance) ahead history =
      resume indexBits countBits (.copy distance (value (ahead.take countBits) + 1))
        (ahead.drop countBits) history := by
  rw [resume, if_neg (by omega)]
  rfl

theorem resume_copy_add (distance done length : Nat) (ahead : List Bool)
    (history : List UInt8) :
    resume indexBits countBits (.copy distance (done + length)) ahead history =
      resume indexBits countBits (.copy distance length) ahead
        (copyBack distance done history) := by
  have split : copyBack distance (done + length) history =
      copyBack distance length (copyBack distance done history) := by
    induction done generalizing history with
    | zero => rw [Nat.zero_add]; rfl
    | succ done inductionHypothesis =>
        rw [Nat.add_right_comm]
        exact inductionHypothesis _
  rw [resume, resume, split]

theorem resume_copy_zero (distance : Nat) (ahead : List Bool) (history : List UInt8) :
    resume indexBits countBits (.copy distance 0) ahead history =
      resume indexBits countBits .tag ahead history :=
  rfl

/-- What was said stays said. -/
theorem suffix_resume (phase : Phase) (ahead : List Bool) (history : List UInt8) :
    history <:+ resume indexBits countBits phase ahead history := by
  cases phase with
  | tag => exact suffix_expand _ _
  | literal => exact suffix_expand _ _
  | index => exact suffix_expand _ _
  | count distance =>
      rw [resume]
      split
      · exact List.suffix_refl history
      · exact (suffix_copyBack _ _ _).trans (suffix_expand _ _)
  | copy distance length => exact (suffix_copyBack _ _ _).trans (suffix_expand _ _)

variable (indexBits countBits)

/-- Too few bits for the field the decoder waits for. -/
def Starved : Phase → (ahead : List Bool) → Prop
  | .tag, ahead => ahead = []
  | .literal, ahead => ahead.length < 8
  | .index, ahead => ahead.length < indexBits
  | .count _, ahead => ahead.length < countBits
  | .copy _ _, _ => False

variable {indexBits countBits}

/-- A starved decoder has said everything its bits stand for. -/
theorem resume_starved {phase : Phase} {ahead : List Bool}
    (starved : Starved indexBits countBits phase ahead) (history : List UInt8) :
    resume indexBits countBits phase ahead history = history := by
  cases phase with
  | tag =>
      cases (show ahead = [] from starved)
      rw [resume, parse]
      rfl
  | literal =>
      have short : ahead.length < 8 := starved
      rw [resume, parse_literal, if_pos short]
      rfl
  | index =>
      have short : ahead.length < indexBits + countBits := Nat.lt_add_right _ starved
      rw [resume, parse_backref, if_pos short]
      rfl
  | count distance => exact if_pos starved
  | copy distance length => exact absurd starved id

end Bits

end LoraSerial.Library.Lzss
