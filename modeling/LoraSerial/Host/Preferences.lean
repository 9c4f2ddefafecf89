import LoraSerial.Library.LittleEndian
import Mathlib.Data.List.TakeDrop
import Mathlib.Data.List.TakeWhile
import Mathlib.Logic.Function.Basic

/-!
Owns the settings store of the nRF52, one file a key: what `putBytes` leaves of a file when a
file-system call fails or the power does, and what each typed get makes of that. Remove,
open and close are atomic; what is written counts from the close.
-/

namespace LoraSerial.Host

open Library.LittleEndian

/-! ### One write -/

/-- The calls of `putBytes`, in order. -/
inductive PutStep where
  | start
  | remove
  | openWrite
  | write
  | close
deriving DecidableEq, Repr

/-- What the file system does with one `putBytes`, and the last call before the power
fails. -/
structure PutCalls where
  removes : Bool
  opens : Bool
  accepts : Nat
  last : PutStep
deriving DecidableEq, Repr

/-- The file after a `putBytes`. Opening for writing creates a missing file and appends to
one that is there; without a file nothing further is called. -/
def PutCalls.fileAfter (calls : PutCalls) (buf : List UInt8) (file : Option (List UInt8)) :
    Option (List UInt8) :=
  let removed := if calls.removes then none else file
  let opened := if calls.opens then some (removed.getD []) else removed
  let closed := if calls.opens then some (removed.getD [] ++ buf.take calls.accepts) else removed
  match calls.last with
  | .start => file
  | .remove => removed
  | .openWrite | .write => opened
  | .close => closed

/-! ### The store -/

structure Preferences where
  readOnly : Bool
  ns : String
  files : String → Option (List UInt8)

namespace Preferences

def kPathMax : Nat := 64

def keyPath (ns key : String) : String :=
  String.ofList ((ns ++ "/" ++ key).toList.take (kPathMax - 1))

/-- Returns the number of bytes written. -/
def putBytes (prefs : Preferences) (calls : PutCalls) (key : String) (buf : List UInt8) :
    Nat × Preferences :=
  if prefs.readOnly then (0, prefs)
  else
    let path := keyPath prefs.ns key
    (if calls.opens then min buf.length calls.accepts else 0,
      { prefs with
        files := Function.update prefs.files path (calls.fileAfter buf (prefs.files path)) })

def isKey (prefs : Preferences) (key : String) : Bool :=
  (prefs.files (keyPath prefs.ns key)).isSome

/-- At most `len` bytes; none of a missing file. -/
def getBytes (prefs : Preferences) (key : String) (len : Nat) : List UInt8 :=
  ((prefs.files (keyPath prefs.ns key)).getD []).take len

def getBytesLength (prefs : Preferences) (key : String) : Nat :=
  ((prefs.files (keyPath prefs.ns key)).getD []).length

/-! ### Typed accessors -/

variable {α : Type}

/-- The value a fixed-width get finds, if it does not return its default. -/
def find (width : Width α) (prefs : Preferences) (key : String) : Option α :=
  let v := prefs.getBytes key width.bytes
  if v.length = width.bytes then some (width.decode v) else none

def get (width : Width α) (prefs : Preferences) (key : String) (default : α) : α :=
  (prefs.find width key).getD default

def put (width : Width α) (prefs : Preferences) (calls : PutCalls) (key : String) (val : α) :
    Nat × Preferences :=
  prefs.putBytes calls key (width.encode val)

def getUChar : Preferences → String → UInt8 → UInt8 := get uint8
def getUShort : Preferences → String → UInt16 → UInt16 := get uint16
def getUInt : Preferences → String → UInt32 → UInt32 := get uint32
def getULong64 : Preferences → String → UInt64 → UInt64 := get uint64

/-- A float as its bits. -/
def getFloat : Preferences → String → UInt32 → UInt32 := get uint32

def putUChar : Preferences → PutCalls → String → UInt8 → Nat × Preferences := put uint8
def putUShort : Preferences → PutCalls → String → UInt16 → Nat × Preferences := put uint16
def putUInt : Preferences → PutCalls → String → UInt32 → Nat × Preferences := put uint32
def putULong64 : Preferences → PutCalls → String → UInt64 → Nat × Preferences := put uint64
def putFloat : Preferences → PutCalls → String → UInt32 → Nat × Preferences := put uint32

/-- `getString` has a buffer of 64 bytes with the NUL. -/
def kStringMax : Nat := 63

def findString (prefs : Preferences) (key : String) : Option (List UInt8) :=
  (prefs.files (keyPath prefs.ns key)).map fun raw => (raw.take kStringMax).takeWhile (· ≠ 0)

def getString (prefs : Preferences) (key : String) (default : List UInt8) : List UInt8 :=
  (prefs.findString key).getD default

def putString (prefs : Preferences) (calls : PutCalls) (key : String) (val : List UInt8) :
    Nat × Preferences :=
  prefs.putBytes calls key val

def kKeyLen : Nat := 16

/-- The per-pair key, if `LoadSettings` takes one from the store. -/
def findKey (prefs : Preferences) : Option (List UInt8) :=
  if prefs.isKey "pkey" ∧ prefs.getBytesLength "pkey" = kKeyLen then
    some (prefs.getBytes "pkey" kKeyLen)
  else none

def loadKey (prefs : Preferences) (linkKey : List UInt8) : List UInt8 :=
  prefs.findKey.getD linkKey

end Preferences

/-! ### What a write leaves -/

/-- What is left in the file: the old value, the new one behind it, no file, an empty file,
or what was written of the new value. -/
inductive Leftover where
  | old
  | both
  | nothing
  | empty
  | new
deriving DecidableEq, Repr

def PutCalls.leftover (calls : PutCalls) : Leftover :=
  match calls.last, calls.removes, calls.opens with
  | .start, _, _ => .old
  | .close, false, true => .both
  | _, false, _ => .old
  | .close, true, true => .new
  | .openWrite, true, true | .write, true, true => .empty
  | _, true, _ => .nothing

/-- The bytes of what is left. -/
def PutCalls.remains (calls : PutCalls) (old new : List UInt8) : Option (List UInt8) :=
  match calls.leftover with
  | .old => some old
  | .both => some (old ++ new.take calls.accepts)
  | .nothing => none
  | .empty => some []
  | .new => some (new.take calls.accepts)

theorem PutCalls.fileAfter_eq (calls : PutCalls) (old new : List UInt8) :
    calls.fileAfter new (some old) = calls.remains old new := by
  obtain ⟨removes, opens, accepts, last⟩ := calls
  cases last <;> cases removes <;> cases opens <;> rfl

namespace Preferences

variable {α : Type} {prefs : Preferences} {key : String}

theorem files_putBytes (writable : prefs.readOnly = false) (calls : PutCalls) {old : List UInt8}
    (new : List UInt8) (stored : prefs.files (keyPath prefs.ns key) = some old) :
    (prefs.putBytes calls key new).2.files (keyPath (prefs.putBytes calls key new).2.ns key) =
      calls.remains old new := by
  simp [putBytes, writable, stored, PutCalls.fileAfter_eq]

/-- Other keys keep their files. -/
theorem files_putBytes_of_ne (prefs : Preferences) (calls : PutCalls) (buf : List UInt8)
    {path : String} (other : path ≠ keyPath prefs.ns key) :
    (prefs.putBytes calls key buf).2.files path = prefs.files path := by
  unfold putBytes
  split
  · rfl
  · exact Function.update_of_ne other _ _

/-! ### Reading it back -/

/-- A fixed-width get reads the first bytes of the file. -/
theorem find_of_file (width : Width α) {raw : Option (List UInt8)}
    (held : prefs.files (keyPath prefs.ns key) = raw) :
    prefs.find width key =
      if width.bytes ≤ (raw.getD []).length then
        some (width.decode ((raw.getD []).take width.bytes))
      else none := by
  simp only [find, getBytes, held, List.length_take]
  congr 1
  exact propext ⟨fun whole => by omega, fun whole => by omega⟩

theorem findKey_of_file {raw : List UInt8}
    (held : prefs.files (keyPath prefs.ns "pkey") = some raw) :
    prefs.findKey = if raw.length = kKeyLen then some raw else none := by
  simp only [findKey, isKey, getBytesLength, getBytes, held, Option.isSome_some, true_and,
    Option.getD_some]
  split
  next whole => rw [List.take_of_length_le (Nat.le_of_eq whole)]
  next => rfl

theorem findKey_of_missing (missing : prefs.files (keyPath prefs.ns "pkey") = none) :
    prefs.findKey = none := by
  simp [findKey, isKey, missing]

/-- A string that `getString` gives back. -/
structure Storable (val : List UInt8) : Prop where
  fits : val.length ≤ kStringMax
  nonzero : ∀ c ∈ val, c ≠ 0

/-- A file without NUL is read up to the buffer. -/
theorem findString_of_file {raw : List UInt8}
    (held : prefs.files (keyPath prefs.ns key) = some raw) (nonzero : ∀ c ∈ raw, c ≠ 0) :
    prefs.findString key = some (raw.take kStringMax) := by
  rw [findString, held, Option.map_some, List.takeWhile_eq_self_iff.mpr]
  intro c member
  exact decide_eq_true (nonzero c (List.mem_of_mem_take member))

theorem findString_of_missing (missing : prefs.files (keyPath prefs.ns key) = none) :
    prefs.findString key = none := by
  rw [findString, missing, Option.map_none]

end Preferences

/-! ### Writes that lose nothing -/

/-- What a fixed-width get survives: nothing was removed, or all of the new value is there. -/
def PutCalls.KeepsFixed (calls : PutCalls) (width : Nat) : Prop :=
  match calls.leftover with
  | .old | .both => True
  | .nothing | .empty => False
  | .new => width ≤ calls.accepts

/-- What the pairing key survives: the file must have the length of a key. -/
def PutCalls.KeepsKey (calls : PutCalls) : Prop :=
  match calls.leftover with
  | .old => True
  | .both => calls.accepts = 0
  | .nothing | .empty => False
  | .new => Preferences.kKeyLen ≤ calls.accepts

/-- What a string survives: besides, parts that happen to be one of the two strings. -/
def PutCalls.KeepsString (calls : PutCalls) (old new : List UInt8) : Prop :=
  match calls.leftover with
  | .old => True
  | .both =>
      (old ++ new.take calls.accepts).take Preferences.kStringMax = old ∨
        (old ++ new.take calls.accepts).take Preferences.kStringMax = new
  | .nothing => False
  | .empty => old = [] ∨ new = []
  | .new => new.take calls.accepts = old ∨ new.length ≤ calls.accepts

namespace Preferences

variable {α : Type} {prefs : Preferences} {key : String}

/-- A get found one of the two values, and did not return its default. -/
def OneOf (found : Option α) (old new : α) : Prop :=
  found = some old ∨ found = some new

theorem oneOf_iff {found : Option α} {old new : α} {kept : Prop}
    (outcome : OneOf found old new ∧ kept ∨ found = none ∧ ¬kept) :
    OneOf found old new ↔ kept := by
  rcases outcome with ⟨either, keeps⟩ | ⟨rfl, loses⟩
  · exact iff_of_true either keeps
  · exact iff_of_false (by simp [OneOf]) loses

/-- A fixed-width get finds the old value, or the new one, or nothing. -/
theorem find_put (writable : prefs.readOnly = false) (calls : PutCalls) (width : Width α)
    (old new : α) (stored : prefs.files (keyPath prefs.ns key) = some (width.encode old)) :
    OneOf ((prefs.put width calls key new).2.find width key) old new ∧
        calls.KeepsFixed width.bytes ∨
      (prefs.put width calls key new).2.find width key = none ∧
        ¬calls.KeepsFixed width.bytes := by
  have left := files_putBytes writable calls (width.encode new) stored
  have positive := width.positive
  rw [OneOf, put, find_of_file width left, PutCalls.KeepsFixed, PutCalls.remains]
  cases calls.leftover with
  | old => simp [List.take_of_length_le]
  | both => simp
  | nothing => simp [positive.ne']
  | empty => simp [positive.ne']
  | new =>
      by_cases whole : width.bytes ≤ calls.accepts
      · simp [whole, List.take_of_length_le]
      · have short : ¬width.bytes ≤ min calls.accepts width.bytes := by omega
        simp [whole, short]

/-- The pairing key is the old one, or the new one, or none. -/
theorem findKey_put (writable : prefs.readOnly = false) (calls : PutCalls)
    {old new : List UInt8} (oldLength : old.length = kKeyLen) (newLength : new.length = kKeyLen)
    (stored : prefs.files (keyPath prefs.ns "pkey") = some old) :
    OneOf (prefs.putBytes calls "pkey" new).2.findKey old new ∧ calls.KeepsKey ∨
      (prefs.putBytes calls "pkey" new).2.findKey = none ∧ ¬calls.KeepsKey := by
  have left := files_putBytes writable calls new stored
  rw [PutCalls.remains] at left
  rw [PutCalls.KeepsKey]
  cases what : calls.leftover with
  | old =>
      simp only [what] at left ⊢
      rw [findKey_of_file left, if_pos oldLength]
      exact Or.inl ⟨Or.inl rfl, trivial⟩
  | both =>
      simp only [what] at left ⊢
      rw [findKey_of_file left, List.length_append, List.length_take]
      by_cases nothing : calls.accepts = 0
      · simp [OneOf, nothing, oldLength]
      · rw [if_neg (by simp only [kKeyLen] at *; omega)]
        exact Or.inr ⟨rfl, nothing⟩
  | nothing =>
      simp only [what] at left ⊢
      exact Or.inr ⟨findKey_of_missing left, id⟩
  | empty =>
      simp only [what] at left ⊢
      rw [findKey_of_file left]
      exact Or.inr ⟨rfl, id⟩
  | new =>
      simp only [what] at left ⊢
      rw [findKey_of_file left, List.length_take]
      by_cases whole : kKeyLen ≤ calls.accepts
      · rw [if_pos (by omega), List.take_of_length_le (by omega)]
        exact Or.inl ⟨Or.inr rfl, whole⟩
      · rw [if_neg (by omega)]
        exact Or.inr ⟨rfl, whole⟩

theorem findString_put_iff (writable : prefs.readOnly = false) (calls : PutCalls)
    {old new : List UInt8} (oldStorable : Storable old) (newStorable : Storable new)
    (stored : prefs.files (keyPath prefs.ns key) = some old) :
    OneOf ((prefs.putString calls key new).2.findString key) old new ↔
      calls.KeepsString old new := by
  have left := files_putBytes writable calls new stored
  have newFits := newStorable.fits
  have partNonzero : ∀ c ∈ new.take calls.accepts, c ≠ 0 := fun c member =>
    newStorable.nonzero c (List.mem_of_mem_take member)
  rw [PutCalls.remains] at left
  rw [OneOf, PutCalls.KeepsString, putString]
  cases what : calls.leftover with
  | old =>
      simp only [what] at left ⊢
      rw [findString_of_file left oldStorable.nonzero, List.take_of_length_le oldStorable.fits]
      exact iff_of_true (Or.inl rfl) trivial
  | both =>
      simp only [what] at left ⊢
      rw [findString_of_file left, Option.some.injEq, Option.some.injEq]
      rintro c member
      rcases List.mem_append.mp member with first | second
      · exact oldStorable.nonzero c first
      · exact partNonzero c second
  | nothing =>
      simp only [what] at left ⊢
      rw [findString_of_missing left]
      simp
  | empty =>
      simp only [what] at left ⊢
      rw [findString_of_file left (by simp)]
      simp [eq_comm]
  | new =>
      simp only [what] at left ⊢
      rw [findString_of_file left partNonzero, List.take_of_length_le
        (by rw [List.length_take]; omega), Option.some.injEq, Option.some.injEq,
        List.take_eq_self_iff]

theorem putBytes_readOnly (readOnly : prefs.readOnly = true) (calls : PutCalls) (key : String)
    (buf : List UInt8) : (prefs.putBytes calls key buf).2 = prefs := by
  rw [putBytes, if_pos readOnly]

/-- A counter whose write is cut short falls back to 0. -/
theorem getULong64_of_lost (writable : prefs.readOnly = false) {calls : PutCalls} {old : UInt64}
    (new : UInt64) (stored : prefs.files (keyPath prefs.ns "txctr") = some (uint64.encode old))
    (lost : ¬calls.KeepsFixed 8) :
    (prefs.putULong64 calls "txctr" new).2.getULong64 "txctr" 0 = 0 := by
  rcases find_put writable calls uint64 old new stored with ⟨-, kept⟩ | ⟨missing, -⟩
  · exact absurd kept lost
  · rw [getULong64, get, putULong64, missing]
    rfl

/-- A pairing key whose write is cut short falls back to the built-in one. -/
theorem loadKey_of_lost (writable : prefs.readOnly = false) {calls : PutCalls}
    {old new : List UInt8} (oldLength : old.length = kKeyLen) (newLength : new.length = kKeyLen)
    (stored : prefs.files (keyPath prefs.ns "pkey") = some old) (lost : ¬calls.KeepsKey)
    (linkKey : List UInt8) : (prefs.putBytes calls "pkey" new).2.loadKey linkKey = linkKey := by
  rcases findKey_put writable calls oldLength newLength stored with ⟨-, kept⟩ | ⟨missing, -⟩
  · exact absurd kept lost
  · rw [loadKey, missing]
    rfl

/-- After a write with any failure or loss of power, a later typed get finds the old or the
new value exactly when the write lost nothing. -/
theorem all_or_nothing_iff (prefs : Preferences) (key : String) (calls : PutCalls) :
    (∀ {α : Type} (width : Width α) (old new : α),
      prefs.files (keyPath prefs.ns key) = some (width.encode old) →
      (OneOf ((prefs.put width calls key new).2.find width key) old new ↔
        prefs.readOnly = true ∨ calls.KeepsFixed width.bytes)) ∧
    (∀ old new : List UInt8, old.length = kKeyLen → new.length = kKeyLen →
      prefs.files (keyPath prefs.ns "pkey") = some old →
      (OneOf (prefs.putBytes calls "pkey" new).2.findKey old new ↔
        prefs.readOnly = true ∨ calls.KeepsKey)) ∧
    ∀ old new : List UInt8, Storable old → Storable new →
      prefs.files (keyPath prefs.ns key) = some old →
      (OneOf ((prefs.putString calls key new).2.findString key) old new ↔
        prefs.readOnly = true ∨ calls.KeepsString old new) := by
  refine ⟨fun width old new stored => ?_, fun old new oldLength newLength stored => ?_,
    fun old new oldStorable newStorable stored => ?_⟩
  · cases readOnly : prefs.readOnly with
    | true =>
        have found : prefs.find width key = some old := by
          simp [find_of_file width stored, List.take_of_length_le]
        rw [put, putBytes_readOnly readOnly]
        exact iff_of_true (Or.inl found) (Or.inl rfl)
    | false =>
        rw [oneOf_iff (find_put readOnly calls width old new stored)]
        simp
  · cases readOnly : prefs.readOnly with
    | true =>
        have found : prefs.findKey = some old := by simp [findKey_of_file stored, oldLength]
        rw [putBytes_readOnly readOnly]
        exact iff_of_true (Or.inl found) (Or.inl rfl)
    | false =>
        rw [oneOf_iff (findKey_put readOnly calls oldLength newLength stored)]
        simp
  · cases readOnly : prefs.readOnly with
    | true =>
        have found : prefs.findString key = some old := by
          rw [findString_of_file stored oldStorable.nonzero,
            List.take_of_length_le oldStorable.fits]
        rw [putString, putBytes_readOnly readOnly]
        exact iff_of_true (Or.inl found) (Or.inl rfl)
    | false =>
        rw [findString_put_iff readOnly calls oldStorable newStorable stored]
        simp

/-- A store with a counter and a pairing key. -/
def paired : Preferences where
  readOnly := false
  ns := "/loramodem"
  files path :=
    if path = "/loramodem/txctr" then some (uint64.encode 5120)
    else if path = "/loramodem/pkey" then some (List.replicate kKeyLen 0xA5)
    else none

/-- A write that goes through. -/
def unharmed : PutCalls where
  removes := true
  opens := true
  accepts := 64
  last := .close

theorem all_or_nothing_iff_unharmed :
    OneOf ((paired.put uint64 unharmed "txctr" 6144).2.find uint64 "txctr") 5120 6144 :=
  ((all_or_nothing_iff paired "txctr" unharmed).1 uint64 5120 6144 rfl).mpr
    (Or.inr (show uint64.bytes ≤ 64 by decide))

/-- The power fails between the remove and the open. -/
def cutAfterRemove : PutCalls where
  removes := true
  opens := true
  accepts := 64
  last := .remove

/-- The counter is 0 again, and the key the built-in one. -/
theorem cut_after_remove :
    paired.getULong64 "txctr" 0 = 5120 ∧
      (paired.putULong64 cutAfterRemove "txctr" 6144).2.getULong64 "txctr" 0 = 0 ∧
      (paired.putBytes cutAfterRemove "pkey" (List.replicate kKeyLen 0x3C)).2.loadKey
        (List.replicate kKeyLen 0) = List.replicate kKeyLen 0 := by
  decide +kernel

end Preferences

end LoraSerial.Host
