import Mathlib.Logic.Function.Basic
import Mathlib.Data.List.Basic

/-!
Owns the teletype: the ring of received lines, the scroll that a newline defers to the
next character, the trackball's scrollback and the rows on the screen. Over any bytes
and trackball movements from power-on, the ring holds the newest lines of the
transcript, and a reader who is scrolled back keeps the same lines until the ring
overwrites the top one. Does not own glyphs and pixels.
-/

namespace LoraSerial.Display

def kCols : Nat := 21

def kRows : Nat := 5

/-- Scrollback history depth, in lines. -/
def kScroll : Nat := 64

inductive Screen where
  | main
  | info
  | config
deriving DecidableEq, Repr

/-- `lines slot index` is one character of the history ring. -/
structure Teletype where
  lines : Nat → Nat → UInt8
  head : Nat
  count : Nat
  scroll : Nat
  col : Nat
  pendingNl : Bool

namespace Teletype

def powerOn : Teletype where
  lines _ _ := 0
  head := 0
  count := 1
  scroll := 0
  col := 0
  pendingNl := false

/-- Write one character; `none` when it lies outside the ring or outside its line. -/
def store (t : Teletype) (slot index : Nat) (c : UInt8) : Option Teletype :=
  if slot < kScroll ∧ index < kCols + 1 then
    some { t with lines := Function.update t.lines slot (Function.update (t.lines slot) index c) }
  else none

/-- The furthest the reader can be scrolled back. -/
def scrollMax (t : Teletype) : Nat :=
  if kRows < t.count then t.count - kRows else 0

def newLine (t : Teletype) : Option Teletype := do
  let t := { t with head := (t.head + 1) % kScroll }
  let t ← t.store t.head 0 0
  let t := { t with count := if t.count < kScroll then t.count + 1 else t.count }
  let t :=
    if 0 < t.scroll then
      { t with scroll := if t.scroll < t.scrollMax then t.scroll + 1 else t.scrollMax }
    else t
  some { t with col := 0 }

/-- A character at the cursor, and the NUL behind it. -/
def putChar (t : Teletype) (c : UInt8) : Option Teletype := do
  let t ← t.store t.head t.col c
  let t := { t with col := t.col + 1 }
  t.store t.head t.col 0

/-- One received character. -/
def ingest (t : Teletype) (c : UInt8) : Option Teletype :=
  if c = 0x0D then some t
  else if c = 0x0A then some { t with pendingNl := true }
  else if c = 0 then some t
  else do
    let t ←
      if t.pendingNl then do
        let t ← t.newLine
        some { t with pendingNl := false }
      else some t
    let t ← if kCols ≤ t.col then t.newLine else some t
    t.putChar c

/-- One poll of the trackball, with the pulses since the last one and what `HoldRepeat`
adds for a held direction. Only the main screen scrolls the teletype. -/
def pollTrackball (t : Teletype) (screen : Screen) (up dn : UInt16) (heldUp heldDown : Int) :
    Teletype :=
  match screen with
  | .main =>
      let older : Int := up.toNat - dn.toNat + heldUp - heldDown
      let s : Int := t.scroll + older
      let s := if s < 0 then 0 else s
      let s := if (t.scrollMax : Int) < s then (t.scrollMax : Int) else s
      { t with scroll := s.toNat }
  | .info | .config => t

/-- The ring slot that row `r` shows, or `none` for a blank row. -/
def rowSlot (t : Teletype) (r : Nat) : Option Nat :=
  let dist := t.scroll + (kRows - 1 - r)
  if t.count < dist + 1 then none else some ((t.head + kScroll - dist) % kScroll)

/-- The characters of a line up to its NUL. -/
def text (cells : Nat → UInt8) : List UInt8 :=
  ((List.range (kCols + 1)).map cells).takeWhile (· ≠ 0)

/-- What `DrawMain` prints in row `r`. -/
def rowText (t : Teletype) (r : Nat) : Option (List UInt8) :=
  (t.rowSlot r).map fun slot => text (t.lines slot)

inductive Event where
  | byte (c : UInt8)
  | trackball (screen : Screen) (up dn : UInt16) (heldUp heldDown : Int)
deriving DecidableEq, Repr

def step (t : Teletype) : Event → Option Teletype
  | .byte c => t.ingest c
  | .trackball screen up dn heldUp heldDown =>
      some (t.pollTrackball screen up dn heldUp heldDown)

def run (t : Teletype) (events : List Event) : Option Teletype :=
  events.foldlM step t

end Teletype

/-! ### The transcript -/

/-- Everything received, as lines; the older ones newest first. -/
structure Transcript where
  current : List UInt8
  older : List (List UInt8)
  pendingNl : Bool

namespace Transcript

def empty : Transcript where
  current := []
  older := []
  pendingNl := false

/-- All lines, newest first. -/
def lines (s : Transcript) : List (List UInt8) :=
  s.current :: s.older

def newLine (s : Transcript) : Transcript where
  current := []
  older := s.lines
  pendingNl := false

/-- A character goes behind the current line, or opens a new one after a newline and
after a full line. -/
def feed (s : Transcript) (c : UInt8) : Transcript :=
  if c = 0x0D ∨ c = 0 then s
  else if c = 0x0A then { s with pendingNl := true }
  else
    let s := if s.pendingNl = true ∨ kCols ≤ s.current.length then s.newLine else s
    { s with current := s.current ++ [c] }

/-- What the events leave in the transcript: the trackball does not count. -/
def hear (s : Transcript) : Teletype.Event → Transcript
  | .byte c => s.feed c
  | .trackball _ _ _ _ _ => s

end Transcript

namespace Teletype

/-! ### One line -/

/-- The cells of a slot hold this line and its NUL. -/
structure Holds (cells : Nat → UInt8) (line : List UInt8) : Prop where
  fits : line.length ≤ kCols
  same : (List.range line.length).map cells = line
  ended : cells line.length = 0
  nonzero : ∀ c ∈ line, c ≠ 0

theorem holds_nil {cells : Nat → UInt8} (ended : cells 0 = 0) : Holds cells [] where
  fits := Nat.zero_le _
  same := rfl
  ended := ended
  nonzero := by simp

/-- A character typed behind the line, with a new NUL after it. -/
theorem Holds.type {cells : Nat → UInt8} {line : List UInt8} (holds : Holds cells line)
    (room : line.length < kCols) {c : UInt8} (nonzero : c ≠ 0) :
    Holds (Function.update (Function.update cells line.length c) (line.length + 1) 0)
      (line ++ [c]) where
  fits := by
    rw [List.length_append, List.length_singleton]
    exact room
  same := by
    rw [List.length_append, List.length_singleton, List.range_succ, List.map_append,
      List.map_singleton]
    congr 1
    · refine Eq.trans (List.map_congr_left fun index member => ?_) holds.same
      have below := List.mem_range.mp member
      rw [Function.update_of_ne (by omega), Function.update_of_ne (by omega)]
    · rw [Function.update_of_ne (by omega), Function.update_self]
  ended := by simp
  nonzero := by
    simp only [List.mem_append, List.mem_singleton]
    rintro other (old | rfl)
    · exact holds.nonzero other old
    · exact nonzero

theorem Holds.text_eq {cells : Nat → UInt8} {line : List UInt8} (holds : Holds cells line) :
    text cells = line := by
  have fits := holds.fits
  obtain ⟨rest, length⟩ : ∃ rest, kCols + 1 = line.length + (rest + 1) :=
    ⟨kCols - line.length, by omega⟩
  rw [text, length, List.range_add, List.map_append, holds.same, List.range_succ_eq_map]
  rw [List.takeWhile_append_of_pos (by simpa using holds.nonzero)]
  simp [holds.ended]

/-! ### The ring shows the transcript -/

/-- The slot `dist` lines behind the current one. -/
def behind (t : Teletype) (dist : Nat) : Nat :=
  (t.head + kScroll - dist) % kScroll

/-- The ring holds the newest `kScroll` lines of the transcript, and the scroll offset
stays inside them. -/
structure Shows (t : Teletype) (s : Transcript) : Prop where
  head_lt : t.head < kScroll
  count_eq : t.count = min kScroll s.lines.length
  col_eq : t.col = s.current.length
  pending_eq : t.pendingNl = s.pendingNl
  scroll_le : t.scroll ≤ t.count - kRows
  terminated : ∀ slot < kScroll, ∃ line, Holds (t.lines slot) line
  history : ∀ dist line, dist < kScroll → s.lines[dist]? = some line →
    Holds (t.lines (t.behind dist)) line

/-- What `NewLine` leaves. -/
def opened (t : Teletype) : Teletype :=
  let head := (t.head + 1) % kScroll
  let count := if t.count < kScroll then t.count + 1 else t.count
  let smax := if kRows < count then count - kRows else 0
  { t with
    lines := Function.update t.lines head (Function.update (t.lines head) 0 0)
    head := head
    count := count
    scroll := if 0 < t.scroll then (if t.scroll < smax then t.scroll + 1 else smax) else t.scroll
    col := 0 }

theorem newLine_eq (t : Teletype) : t.newLine = some t.opened := by
  have inside : (t.head + 1) % kScroll < kScroll := Nat.mod_lt _ (by decide)
  simp only [newLine, store, inside, kCols, Nat.zero_lt_succ, and_self, if_true,
    Option.bind_eq_bind, Option.bind_some, opened, scrollMax]
  by_cases scrolled : 0 < t.scroll <;> simp [scrolled]

/-- What typing one character leaves. -/
def typed (t : Teletype) (c : UInt8) : Teletype :=
  { t with
    lines := Function.update t.lines t.head
      (Function.update (Function.update (t.lines t.head) t.col c) (t.col + 1) 0)
    col := t.col + 1 }

theorem putChar_eq {t : Teletype} (inside : t.head < kScroll) (room : t.col < kCols) (c : UInt8) :
    t.putChar c = some (t.typed c) := by
  have here : t.col < kCols + 1 := by omega
  simp [putChar, store, inside, here, room, typed]

namespace Shows

variable {t : Teletype} {s : Transcript}

theorem powerOn : Teletype.powerOn.Shows .empty where
  head_lt := by decide
  count_eq := rfl
  col_eq := rfl
  pending_eq := rfl
  scroll_le := Nat.zero_le _
  terminated := fun _ _ => ⟨[], holds_nil rfl⟩
  history := by
    rintro (_ | dist) line _ found
    · cases found
      exact holds_nil rfl
    · simp [Transcript.lines, Transcript.empty] at found

theorem count_le (shows : t.Shows s) : t.count ≤ kScroll := by
  rw [shows.count_eq]
  exact Nat.min_le_left _ _

/-- The current line is in the head slot. -/
theorem current (shows : t.Shows s) : Holds (t.lines t.head) s.current := by
  have held := shows.history 0 s.current (by decide) rfl
  rwa [behind, Nat.sub_zero, Nat.add_mod_right, Nat.mod_eq_of_lt shows.head_lt] at held

theorem opened (shows : t.Shows s) : t.opened.Shows { s.newLine with pendingNl := s.pendingNl } where
  head_lt := Nat.mod_lt _ (by decide)
  count_eq := by
    have count := shows.count_eq
    simp only [Teletype.opened, Transcript.newLine, Transcript.lines, List.length_cons] at count ⊢
    split <;> omega
  col_eq := rfl
  pending_eq := shows.pending_eq
  scroll_le := by
    have bound := shows.scroll_le
    have full := shows.count_le
    simp only [Teletype.opened]
    grind
  terminated := by
    intro slot inside
    by_cases fresh : slot = (t.head + 1) % kScroll
    · refine ⟨[], holds_nil ?_⟩
      simp [Teletype.opened, fresh]
    · obtain ⟨line, held⟩ := shows.terminated slot inside
      refine ⟨line, ?_⟩
      simpa [Teletype.opened, Function.update_of_ne fresh] using held
  history := by
    have inside := shows.head_lt
    rintro (_ | dist) line below found
    · cases found
      refine holds_nil ?_
      simp [behind, Teletype.opened]
    · have held := shows.history dist line (by omega) found
      have same : t.opened.behind (dist + 1) = t.behind dist := by
        simp only [behind, Teletype.opened, kScroll] at inside below ⊢
        omega
      have other : t.behind dist ≠ (t.head + 1) % kScroll := by
        simp only [behind, kScroll] at inside below ⊢
        omega
      rw [same]
      simpa [Teletype.opened, Function.update_of_ne other] using held

theorem typed (shows : t.Shows s) (room : s.current.length < kCols) {c : UInt8}
    (nonzero : c ≠ 0) : (t.typed c).Shows { s with current := s.current ++ [c] } where
  head_lt := shows.head_lt
  count_eq := shows.count_eq
  col_eq := by simp [Teletype.typed, shows.col_eq]
  pending_eq := shows.pending_eq
  scroll_le := shows.scroll_le
  terminated := by
    intro slot inside
    by_cases here : slot = t.head
    · refine ⟨s.current ++ [c], ?_⟩
      simpa [Teletype.typed, here, shows.col_eq] using shows.current.type room nonzero
    · obtain ⟨line, held⟩ := shows.terminated slot inside
      refine ⟨line, ?_⟩
      simpa [Teletype.typed, Function.update_of_ne here] using held
  history := by
    have inside := shows.head_lt
    rintro (_ | dist) line below found
    · cases found
      have here : (t.typed c).behind 0 = t.head := by
        simp only [behind, Teletype.typed, kScroll] at inside ⊢
        omega
      rw [here]
      simpa [Teletype.typed, shows.col_eq] using shows.current.type room nonzero
    · have held := shows.history (dist + 1) line below found
      have other : t.behind (dist + 1) ≠ t.head := by
        simp only [behind, kScroll] at inside below ⊢
        omega
      rw [show (t.typed c).behind (dist + 1) = t.behind (dist + 1) from rfl]
      simpa [Teletype.typed, Function.update_of_ne other] using held

end Shows

/-- What one character can do: nothing to the lines, type on the current line, or open a
line and type there. -/
inductive Ingested (t : Teletype) (s : Transcript) (c : UInt8) : Option Teletype → Prop
  | quiet (pendingNl : Bool) (fed : s.feed c = { s with pendingNl := pendingNl }) :
      Ingested t s c (some { t with pendingNl := pendingNl })
  | typed (room : s.current.length < kCols) (nonzero : c ≠ 0)
      (fed : s.feed c = { s with current := s.current ++ [c] }) :
      Ingested t s c (some (t.typed c))
  | opened (nonzero : c ≠ 0)
      (fed : s.feed c = { s.newLine with current := [c] }) :
      Ingested t s c (some ({ t.opened with pendingNl := false }.typed c))

theorem Shows.ingested {t : Teletype} {s : Transcript} (shows : t.Shows s) (c : UInt8) :
    Ingested t s c (t.ingest c) := by
  unfold ingest
  by_cases cr : c = 0x0D
  · rw [if_pos cr]
    exact .quiet t.pendingNl (by simp [Transcript.feed, cr, shows.pending_eq])
  by_cases lf : c = 0x0A
  · rw [if_neg cr, if_pos lf]
    exact .quiet true (by simp [Transcript.feed, lf])
  by_cases nul : c = 0
  · rw [if_neg cr, if_neg lf, if_pos nul]
    exact .quiet t.pendingNl (by simp [Transcript.feed, nul, shows.pending_eq])
  rw [if_neg cr, if_neg lf, if_neg nul]
  have openedHead : t.opened.head < kScroll := Nat.mod_lt _ (by decide)
  cases pending : t.pendingNl with
  | true =>
      have fed : s.feed c = { s.newLine with current := [c] } := by
        simp [Transcript.feed, Transcript.newLine, cr, lf, nul, ← shows.pending_eq, pending]
      have started : ¬kCols ≤ t.opened.col := Nat.not_le.mpr (by decide : 0 < kCols)
      simp only [newLine_eq, if_true, Option.bind_eq_bind, Option.bind_some, started, if_false]
      rw [putChar_eq (t := { t.opened with pendingNl := false }) openedHead
        (by decide : 0 < kCols)]
      exact .opened nul fed
  | false =>
      simp only [Bool.false_eq_true, if_false, newLine_eq, Option.bind_eq_bind, Option.bind_some]
      by_cases full : kCols ≤ t.col
      · have fed : s.feed c = { s.newLine with current := [c] } := by
          rw [shows.col_eq] at full
          simp [Transcript.feed, Transcript.newLine, cr, lf, nul, full]
        have same : t.opened = { t.opened with pendingNl := false } := by
          rw [← pending]
          rfl
        rw [if_pos full, putChar_eq openedHead (by decide : 0 < kCols), same]
        exact .opened nul fed
      · rw [if_neg full, putChar_eq shows.head_lt (Nat.lt_of_not_le full)]
        rw [shows.col_eq] at full
        refine .typed (Nat.lt_of_not_le full) nul ?_
        simp [Transcript.feed, cr, lf, nul, full, ← shows.pending_eq, pending]

namespace Shows

variable {t : Teletype} {s : Transcript}

theorem setPending (shows : t.Shows s) (pendingNl : Bool) :
    Teletype.Shows { t with pendingNl := pendingNl } { s with pendingNl := pendingNl } :=
  { shows with pending_eq := rfl }

theorem ingest (shows : t.Shows s) (c : UInt8) :
    ∃ next, t.ingest c = some next ∧ next.Shows (s.feed c) := by
  have ingested := shows.ingested c
  generalize t.ingest c = outcome at ingested
  cases ingested with
  | quiet pendingNl fed => exact ⟨_, rfl, fed ▸ shows.setPending pendingNl⟩
  | typed room nonzero fed => exact ⟨_, rfl, fed ▸ shows.typed room nonzero⟩
  | opened nonzero fed =>
      exact ⟨_, rfl, fed ▸ (shows.opened.setPending false).typed (by decide : 0 < kCols) nonzero⟩

theorem pollTrackball (shows : t.Shows s) (screen : Screen) (up dn : UInt16)
    (heldUp heldDown : Int) : (t.pollTrackball screen up dn heldUp heldDown).Shows s := by
  cases screen with
  | main =>
      refine { shows with scroll_le := ?_ }
      simp only [Teletype.pollTrackball, scrollMax]
      grind
  | info => exact shows
  | config => exact shows

theorem step (shows : t.Shows s) (event : Event) :
    ∃ next, t.step event = some next ∧ next.Shows (s.hear event) := by
  cases event with
  | byte c => exact shows.ingest c
  | trackball screen up dn heldUp heldDown =>
      exact ⟨_, rfl, shows.pollTrackball screen up dn heldUp heldDown⟩

/-- Every event stays inside the ring, and the ring goes on showing the transcript. -/
theorem run (shows : t.Shows s) (events : List Event) :
    ∃ last, t.run events = some last ∧ last.Shows (events.foldl Transcript.hear s) := by
  induction events generalizing t s with
  | nil => exact ⟨t, rfl, shows⟩
  | cons event rest inductionHypothesis =>
      obtain ⟨next, stepped, nextShows⟩ := shows.step event
      obtain ⟨last, ran, lastShows⟩ := inductionHypothesis nextShows
      refine ⟨last, ?_, lastShows⟩
      rw [Teletype.run, List.foldlM_cons, stepped]
      exact ran

end Shows

/-! ### The rows -/

/-- Every row shows the slot it showed, with the same characters in it. -/
def SameRows (t next : Teletype) : Prop :=
  ∀ r < kRows, next.rowSlot r = t.rowSlot r ∧
    ∀ slot, t.rowSlot r = some slot → next.lines slot = t.lines slot

theorem SameRows.trans {t middle next : Teletype} (first : t.SameRows middle)
    (second : middle.SameRows next) : t.SameRows next := by
  intro r visible
  obtain ⟨slotFirst, linesFirst⟩ := first r visible
  obtain ⟨slotSecond, linesSecond⟩ := second r visible
  refine ⟨slotSecond.trans slotFirst, fun slot shown => ?_⟩
  rw [linesSecond slot (slotFirst.trans shown), linesFirst slot shown]

namespace Shows

variable {t : Teletype} {s : Transcript}

/-- Row by row, the screen shows the transcript at the scroll offset. -/
theorem rowText_eq (shows : t.Shows s) (r : Nat) :
    t.rowText r = s.lines[t.scroll + (kRows - 1 - r)]? := by
  have count := shows.count_eq
  have bound := shows.scroll_le
  simp only [kScroll, kRows] at count bound
  simp only [rowText, rowSlot]
  split
  next blank =>
    rw [Option.map_none, List.getElem?_eq_none]
    simp only [kRows] at blank ⊢
    omega
  next shown =>
    have below : t.scroll + (kRows - 1 - r) < s.lines.length := by omega
    have held := shows.history _ _ (by simp only [kScroll]; omega)
      (List.getElem?_eq_getElem below)
    rw [List.getElem?_eq_getElem below, ← held.text_eq]
    rfl

/-- A reader who is scrolled back does not see the current line. -/
theorem sameRows_typed (shows : t.Shows s) (scrolled : 0 < t.scroll) (c : UInt8) :
    t.SameRows (t.typed c) := by
  have inside := shows.head_lt
  have bound := shows.scroll_le
  have full := shows.count_le
  refine fun r visible => ⟨rfl, fun slot shown => ?_⟩
  have other : slot ≠ t.head := by
    simp only [rowSlot, kRows, kScroll] at *
    grind
  simp [Teletype.typed, Function.update_of_ne other]

/-- A new line moves the offset along, unless the top row is the line it overwrites. -/
theorem scroll_opened (shows : t.Shows s) (scrolled : 0 < t.scroll)
    (kept : t.rowSlot 0 ≠ some t.opened.head) : t.opened.scroll = t.scroll + 1 := by
  have inside := shows.head_lt
  have bound := shows.scroll_le
  have full := shows.count_le
  simp only [rowSlot, Teletype.opened, kRows, kScroll] at *
  grind

theorem sameRows_opened (shows : t.Shows s) (scrolled : 0 < t.scroll)
    (kept : t.rowSlot 0 ≠ some t.opened.head) : t.SameRows t.opened := by
  have inside := shows.head_lt
  have bound := shows.scroll_le
  have head : t.opened.head = (t.head + 1) % kScroll := rfl
  have room := (shows.opened).scroll_le
  rw [shows.scroll_opened scrolled kept] at room
  have full := shows.count_le
  have fullNext := (shows.opened).count_le
  simp only [kRows, kScroll] at inside bound head room full fullNext
  refine fun r visible => ⟨?_, fun slot shown => ?_⟩
  · have shownNext : ¬t.opened.count < t.opened.scroll + (kRows - 1 - r) + 1 := by
      rw [shows.scroll_opened scrolled kept]
      simp only [kRows]
      omega
    have shown : ¬t.count < t.scroll + (kRows - 1 - r) + 1 := by
      simp only [kRows]
      omega
    simp only [rowSlot]
    rw [if_neg shownNext, if_neg shown, shows.scroll_opened scrolled kept, head]
    simp only [kRows, kScroll]
    congr 1
    omega
  · -- The top row is the oldest line on the screen, so no row below it is overwritten.
    have other : slot ≠ (t.head + 1) % kScroll := by
      simp only [rowSlot, kRows, kScroll] at shown ⊢
      grind
    simp [Teletype.opened, Function.update_of_ne other]

/-- No character moves the view of a reader who is scrolled back and whose top line the
ring does not overwrite. -/
theorem sameRows_ingest (shows : t.Shows s) (scrolled : 0 < t.scroll) {c : UInt8}
    {next : Teletype} (taken : t.ingest c = some next)
    (kept : t.rowSlot 0 ≠ some next.head) : t.SameRows next := by
  have ingested := shows.ingested c
  rw [taken] at ingested
  cases ingested with
  | quiet pendingNl _ => exact fun r _ => ⟨rfl, fun _ _ => rfl⟩
  | typed _ _ _ => exact shows.sameRows_typed scrolled c
  | opened _ _ =>
      have still : 0 < t.opened.scroll := by
        rw [shows.scroll_opened scrolled kept]
        exact Nat.succ_pos _
      have opened := shows.sameRows_opened scrolled kept
      exact opened.trans ((shows.opened.setPending false).sameRows_typed still c)

end Shows

/-- Counts, cursor, lines and offset are in range. -/
structure Consistent (t : Teletype) : Prop where
  count_le : t.count ≤ kScroll
  col_le : t.col ≤ kCols
  terminated : ∀ slot < kScroll, ∃ index < kCols + 1, t.lines slot index = 0
  scroll_le : (t.scroll : Int) ≤ max 0 ((t.count : Int) - kRows)

theorem Shows.consistent {t : Teletype} {s : Transcript} (shows : t.Shows s) : t.Consistent where
  count_le := shows.count_le
  col_le := shows.col_eq ▸ shows.current.fits
  terminated := fun slot inside => by
    obtain ⟨line, held⟩ := shows.terminated slot inside
    exact ⟨line.length, Nat.lt_succ_of_le held.fits, held.ended⟩
  scroll_le := by
    have bound := shows.scroll_le
    omega

/-- From power-on, over any received bytes and trackball movements, no write leaves the
ring, the state is consistent, and a further byte keeps every row of a reader who is
scrolled back, unless its new line takes the slot of the top row. -/
theorem scrollback_consistent (events : List Event) :
    ∃ t, powerOn.run events = some t ∧ t.Consistent ∧
      ∀ c, ∃ next, t.ingest c = some next ∧
        (0 < t.scroll → t.rowSlot 0 ≠ some next.head →
          ∀ r < kRows, next.rowSlot r = t.rowSlot r ∧ next.rowText r = t.rowText r) := by
  obtain ⟨t, ran, shows⟩ := Shows.powerOn.run events
  refine ⟨t, ran, shows.consistent, fun c => ?_⟩
  obtain ⟨next, taken, -⟩ := shows.ingest c
  refine ⟨next, taken, fun scrolled kept r visible => ?_⟩
  obtain ⟨slots, lines⟩ := shows.sameRows_ingest scrolled taken kept r visible
  refine ⟨slots, ?_⟩
  rw [rowText, rowText, slots]
  exact Option.map_congr fun slot shown => congrArg text (lines slot shown)

-- Six lines, one row back: the seventh line leaves the first one on the top row.
example :
    let view := fun t : Teletype => (t.scroll, t.rowText 0, t.rowText 4)
    let back := "a\nb\nc\nd\ne\nf".toUTF8.toList.map Event.byte ++ [.trackball .main 1 0 0 0]
    (powerOn.run back).map view = some (1, some [0x61], some [0x65]) ∧
      (powerOn.run (back ++ [.byte 0x0A, .byte 0x67])).map view =
        some (2, some [0x61], some [0x65]) := by
  decide +kernel

end Teletype

end LoraSerial.Display
