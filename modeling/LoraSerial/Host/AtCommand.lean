import LoraSerial.Host.AtFilter
import LoraSerial.Library.Run

/-!
Owns the AT console under re-entry: `Poll` reads chunks and filters them byte by byte, a
line that ends runs its command, and while `AT+PAIR` waits on the radio its idle hook
polls again, on the same accumulator. Proves when every typed line is executed once, as it
was typed. Every other command returns before the next byte is filtered.
-/

namespace LoraSerial.Host

open Library LinkLayer

/-- `AT+PAIR` -/
def pairText : Bytes := [0x41, 0x54, 0x2B, 0x50, 0x41, 0x49, 0x52]

/-- A byte and its place in everything the host sent. -/
structure Keystroke where
  index : Nat
  byte : UInt8
deriving DecidableEq, Repr

def keystrokes (start : Nat) : Bytes → List Keystroke
  | [] => []
  | byte :: rest => { index := start, byte := byte } :: keystrokes (start + 1) rest

/-- What the host typed in AT mode: the line it is typing, the lines it has ended, and the
places of the bytes they are made of. -/
structure TypedLines where
  line : Bytes
  lines : List Bytes
  places : List Nat
deriving DecidableEq

namespace TypedLines

/-- An empty line is no line. -/
def key (typed : TypedLines) (key : Keystroke) : TypedLines :=
  if endsLine key.byte then
    if typed.line = [] then typed
    else
      { line := []
        lines := typed.lines ++ [typed.line]
        places := typed.places ++ [key.index] }
  else
    { typed with
      line := typed.line ++ [key.byte]
      places := typed.places ++ [key.index] }

/-- A line does not outlast the AT mode it was typed in. -/
def leave (typed : TypedLines) : TypedLines :=
  { typed with line := [] }

end TypedLines

/-- A command that has not returned: its text, and the rest of the chunk its line came
from. -/
structure RunningCommand where
  text : Bytes
  rest : List Keystroke
deriving DecidableEq

/-- `chunk` is what is left of the chunk that is being filtered, `running` has the
innermost command first, and `executed` are the lines handed to `AtExec`. -/
structure Console where
  filter : AtFilter
  chunk : List Keystroke
  running : List RunningCommand
  received : Nat
  executed : List Bytes
  typed : TypedLines
deriving DecidableEq

/-- The main loop or the innermost command polls and reads a chunk, `AtFilter` takes its
next byte, `AtTick` runs, the innermost command returns. -/
inductive ConsoleEvent where
  | read (bytes : Bytes)
  | key (now : UInt32)
  | tick (now : UInt32)
  | finish
deriving DecidableEq

namespace Console

def boot : Console where
  filter := .boot
  chunk := []
  running := []
  received := 0
  executed := []
  typed := { line := [], lines := [], places := [] }

/-- What is typed belongs to the AT mode that the filter is in. -/
def settle (console : Console) (filter : AtFilter) : Console :=
  { console with
    filter := filter
    typed := if filter.atMode then console.typed else console.typed.leave }

/-- `AtFilter` takes one byte. -/
def key (console : Console) (key : Keystroke) (rest : List Keystroke) (now : UInt32) : Console :=
  let typed := if console.filter.atMode then console.typed.key key else console.typed
  if console.filter.submits key.byte then
    let begun : Console := { console with
      executed := console.executed ++ [console.filter.submitted]
      typed := typed }
    if console.filter.command = pairText then
      { begun with
        filter := console.filter.beginExec now
        chunk := []
        running := { text := console.filter.command, rest := rest } :: console.running }
    else { begun with chunk := rest }.settle (console.filter.filterByte key.byte now).2
  else { console with chunk := rest, typed := typed }.settle
    (console.filter.filterByte key.byte now).2

def step (console : Console) : ConsoleEvent → Console
  | .read bytes =>
      if console.chunk = [] then
        { console with
          chunk := keystrokes console.received bytes
          received := console.received + bytes.length }
      else console
  | .key now =>
      match console.chunk with
      | [] => console
      | key :: rest => console.key key rest now
  | .tick now =>
      if console.chunk = [] then console.settle (console.filter.atTick now) else console
  | .finish =>
      match console.chunk, console.running with
      | [], command :: outer =>
          { console with
            filter := console.filter.endExec
            chunk := command.rest
            running := outer }
      | _, _ => console

def run (console : Console) (events : List ConsoleEvent) : Console :=
  events.foldl step console

/-- The lines handed to `AtExec` are the lines typed, each once and in order, a longer one
cut to the accumulator's size; they were filtered in the order they were typed; and no
running command's line has changed. -/
structure Framed (console : Console) : Prop where
  executed : console.executed = console.typed.lines.map (List.take (atLineMax - 1))
  inOrder : console.typed.places.Pairwise (· < ·)
  unchanged : ∀ command ∈ console.running, cString console.filter.atLine = command.text

/-- While a command runs nothing is typed but the end of a line that is empty, and no line
that is executed has a NUL in it. -/
def Undisturbed (console : Console) : ConsoleEvent → Prop
  | .key _ => ∀ key ∈ console.chunk.head?, console.filter.atMode = true →
      (console.running ≠ [] → endsLine key.byte = true ∧ console.filter.atN = 0) ∧
        (console.filter.submits key.byte = true →
          0 ∉ console.filter.atLine.take console.filter.atN)
  | .read _ | .tick _ | .finish => True

instance (console : Console) : ∀ event, Decidable (console.Undisturbed event)
  | .key _ => inferInstanceAs (Decidable (∀ key ∈ console.chunk.head?, _))
  | .read _ | .tick _ | .finish => .isTrue trivial

/-! ### The invariant -/

/-- Read and not yet filtered, in the order of reading. -/
def pending (console : Console) : List Keystroke :=
  (console.running.reverse.flatMap RunningCommand.rest) ++ console.chunk

/-- The places of what was typed and of what is pending. -/
def places (console : Console) : List Nat :=
  console.typed.places ++ console.pending.map Keystroke.index

/-- Without a command running the accumulator holds the line being typed; with one, nothing
has been typed since it began. -/
structure Tidy (console : Console) : Prop where
  executed : console.executed = console.typed.lines.map (List.take (atLineMax - 1))
  inOrder : console.places.Pairwise (· < ·)
  received : ∀ place ∈ console.places, place < console.received
  unchanged : ∀ command ∈ console.running, cString console.filter.atLine = command.text
  single : console.running.length ≤ 1
  cells : console.filter.atLine.length = atLineMax
  outside : console.filter.atMode = false → console.typed.line = []
  busy : console.running ≠ [] → console.typed.line = []
  used : console.running = [] →
    console.filter.atN = min console.typed.line.length (atLineMax - 1)
  line : console.running = [] →
    console.filter.atLine.take console.filter.atN = console.typed.line.take (atLineMax - 1)

variable {console : Console}

theorem index_keystrokes (start : Nat) (bytes : Bytes) :
    (keystrokes start bytes).map Keystroke.index = List.range' start bytes.length := by
  induction bytes generalizing start with
  | nil => rfl
  | cons byte rest inductionHypothesis =>
      rw [keystrokes, List.map_cons, inductionHypothesis, List.length_cons, List.range'_succ]

/-- The next byte moves from the pending places to the typed ones. -/
theorem places_typed {key : Keystroke} {rest : List Keystroke}
    (head : console.chunk = key :: rest) (idle : console.running = []) :
    console.places = console.typed.places ++ key.index :: rest.map Keystroke.index := by
  simp [Console.places, pending, head, idle]

namespace Tidy

theorem framed (tidy : console.Tidy) : console.Framed where
  executed := tidy.executed
  inOrder := (List.pairwise_append.mp tidy.inOrder).1
  unchanged := tidy.unchanged

/-- A chunk is read when nothing is left of the one before it. -/
theorem read (tidy : console.Tidy) (bytes : Bytes) : (console.step (.read bytes)).Tidy := by
  dsimp only [Console.step]
  split
  next done =>
    have places : Console.places { console with
        chunk := keystrokes console.received bytes
        received := console.received + bytes.length } =
          console.places ++ List.range' console.received bytes.length := by
      simp [Console.places, pending, done, index_keystrokes]
    exact
      { executed := tidy.executed
        inOrder := by
          rw [places]
          refine List.pairwise_append.mpr ⟨tidy.inOrder, List.pairwise_lt_range', ?_⟩
          intro old before fresh after
          exact Nat.lt_of_lt_of_le (tidy.received old before) (List.mem_range'_1.mp after).1
        received := by
          rw [places]
          intro place member
          change place < console.received + bytes.length
          rcases List.mem_append.mp member with old | fresh
          · exact Nat.lt_add_right _ (tidy.received place old)
          · exact (List.mem_range'_1.mp fresh).2
        unchanged := tidy.unchanged
        single := tidy.single
        cells := tidy.cells
        outside := tidy.outside
        busy := tidy.busy
        used := tidy.used
        line := tidy.line }
  next => exact tidy

/-- Nothing is typed, and what the filter has no more to take is gone. -/
theorem settle (tidy : console.Tidy) {chunk : List Keystroke} (sub : chunk.Sublist console.chunk)
    {filter : AtFilter} (cells : filter.atLine = console.filter.atLine)
    (used : filter.atMode = console.filter.atMode ∧ filter.atN = console.filter.atN ∨
      filter.atMode = !console.filter.atMode ∧ filter.atN = 0) :
    (({ console with chunk := chunk } : Console).settle filter).Tidy := by
  have places : (Console.places { console with chunk := chunk }).Sublist console.places :=
    List.Sublist.append_left (List.Sublist.map _ (List.Sublist.append_left sub _)) _
  have inOrder := tidy.inOrder.sublist places
  have received : ∀ place ∈ Console.places { console with chunk := chunk },
      place < console.received :=
    fun place member => tidy.received place (places.subset member)
  have unchanged : ∀ command ∈ console.running, cString filter.atLine = command.text := by
    rw [cells]
    exact tidy.unchanged
  have length : filter.atLine.length = atLineMax := by
    rw [cells]
    exact tidy.cells
  cases mode : filter.atMode with
  | false =>
      have after : ({ console with chunk := chunk } : Console).settle filter =
          { console with chunk := chunk, filter := filter, typed := console.typed.leave } := by
        simp [Console.settle, mode]
      have empty : console.running = [] → filter.atN = 0 := by
        intro idle
        rcases used with ⟨same, sameN⟩ | ⟨-, none⟩
        · rw [sameN, tidy.used idle, tidy.outside (same.symm.trans mode)]
          rfl
        · exact none
      rw [after]
      exact
        { executed := tidy.executed
          inOrder := inOrder
          received := received
          unchanged := unchanged
          single := tidy.single
          cells := length
          outside := fun _ => rfl
          busy := fun _ => rfl
          used := empty
          line := fun idle => by
            change filter.atLine.take filter.atN = _
            rw [empty idle]
            rfl }
  | true =>
      have after : ({ console with chunk := chunk } : Console).settle filter =
          { console with chunk := chunk, filter := filter } := by
        simp [Console.settle, mode]
      -- AT mode either was on or has just been entered.
      have sameN : console.running = [] → filter.atN = console.filter.atN := by
        intro idle
        rcases used with ⟨-, sameN⟩ | ⟨entered, none⟩
        · exact sameN
        · rw [mode] at entered
          have off : console.filter.atMode = false := by simpa using entered.symm
          rw [none, tidy.used idle, tidy.outside off]
          rfl
      rw [after]
      exact
        { executed := tidy.executed
          inOrder := inOrder
          received := received
          unchanged := unchanged
          single := tidy.single
          cells := length
          outside := fun off => by
            change filter.atMode = false at off
            rw [mode] at off
            cases off
          busy := tidy.busy
          used := fun idle => (sameN idle).trans (tidy.used idle)
          line := fun idle => by
            change filter.atLine.take filter.atN = _
            rw [cells, sameN idle]
            exact tidy.line idle }

theorem tick (tidy : console.Tidy) (now : UInt32) : (console.step (.tick now)).Tidy := by
  obtain ⟨cells, used⟩ := console.filter.atTick_line now
  dsimp only [Console.step]
  split
  next => exact tidy.settle (List.Sublist.refl _) cells used
  next => exact tidy

/-- The command that returns empties the accumulator, in which nothing was typed. -/
theorem finish (tidy : console.Tidy) : (console.step .finish).Tidy := by
  dsimp only [Console.step]
  split
  next command outer done running =>
    have none : outer = [] := by
      have single := tidy.single
      rw [running, List.length_cons] at single
      exact List.length_eq_zero_iff.mp (by omega)
    have busy : console.typed.line = [] := tidy.busy (by simp [running])
    have places : Console.places { console with
        filter := console.filter.endExec, chunk := command.rest, running := outer } =
          console.places := by
      simp [Console.places, pending, done, running, none]
    exact
      { executed := tidy.executed
        inOrder := by rw [places]; exact tidy.inOrder
        received := by rw [places]; exact tidy.received
        unchanged := fun other member => by
          rw [show outer = [] from none] at member
          exact absurd member List.not_mem_nil
        single := by rw [none]; exact Nat.zero_le 1
        cells := tidy.cells
        outside := tidy.outside
        busy := fun _ => busy
        used := fun _ => by
          change 0 = _
          rw [busy]
          rfl
        line := fun _ => by
          change console.filter.atLine.take 0 = _
          rw [busy]
          rfl }
  next => exact tidy

/-- A byte that is not typed: outside AT mode, or the end of an empty line. -/
theorem key_untyped (tidy : console.Tidy) {key : Keystroke} {rest : List Keystroke}
    (head : console.chunk = key :: rest) (now : UInt32)
    (untyped : console.filter.atMode = true →
      endsLine key.byte = true ∧ console.filter.atN = 0 ∧ console.typed.line = []) :
    (console.key key rest now).Tidy := by
  have sub : rest.Sublist console.chunk := by
    rw [head]
    exact List.sublist_cons_self key rest
  cases mode : console.filter.atMode with
  | false =>
      have noSubmit : console.filter.submits key.byte = false := by
        simp [AtFilter.submits, mode]
      obtain ⟨stays, cells, used⟩ :=
        AtFilter.filterByte_outside mode key.byte now
      have after : console.key key rest now = ({ console with chunk := rest } : Console).settle
          (console.filter.filterByte key.byte now).2 := by
        simp [Console.key, noSubmit, mode]
      rw [after]
      exact tidy.settle sub cells (Or.inl ⟨stays.trans mode.symm, used⟩)
  | true =>
      obtain ⟨ends, empty, line⟩ := untyped mode
      have noSubmit : console.filter.submits key.byte = false := by
        simp [AtFilter.submits, empty]
      have filtered : (console.filter.filterByte key.byte now).2 =
          { console.filter with atActiveAt := now } := by
        rw [AtFilter.filterByte_typed mode, AtFilter.typed_empty ends empty]
      have after : console.key key rest now = ({ console with chunk := rest } : Console).settle
          { console.filter with atActiveAt := now } := by
        simp [Console.key, noSubmit, mode, filtered, TypedLines.key, ends, line]
      rw [after]
      exact tidy.settle sub rfl (Or.inl ⟨rfl, rfl⟩)

/-- A byte of a line, with no command running. -/
theorem key_inLine (tidy : console.Tidy) {key : Keystroke} {rest : List Keystroke}
    (head : console.chunk = key :: rest) (now : UInt32) (mode : console.filter.atMode = true)
    (idle : console.running = []) (inside : endsLine key.byte = false) :
    (console.key key rest now).Tidy := by
  have noSubmit : console.filter.submits key.byte = false := by
    simp [AtFilter.submits, inside]
  have typed : console.typed.key key =
      { console.typed with
        line := console.typed.line ++ [key.byte]
        places := console.typed.places ++ [key.index] } := if_neg (by simp [inside])
  have places := places_typed head idle
  obtain ⟨filterMode, cells, usedAfter, lineAfter⟩ :=
    AtFilter.typed_inLine inside tidy.cells (tidy.used idle) (tidy.line idle) now
  have eq : (console.filter.filterByte key.byte now).2 = console.filter.typed key.byte now := by
    rw [AtFilter.filterByte_typed mode]
  rw [mode] at filterMode
  generalize console.filter.typed key.byte now = filter at *
  have after : console.key key rest now =
      { console with
        filter := filter
        chunk := rest
        typed := console.typed.key key } := by
    simp [Console.key, noSubmit, mode, eq, Console.settle, filterMode]
  have placesAfter : (console.key key rest now).places = console.places := by
    rw [after, places]
    simp [Console.places, pending, idle, typed]
  rw [after, typed] at placesAfter ⊢
  exact
    { executed := tidy.executed
      inOrder := by rw [placesAfter]; exact tidy.inOrder
      received := by rw [placesAfter]; exact tidy.received
      unchanged := fun command member => by
        change command ∈ console.running at member
        rw [idle] at member
        exact absurd member List.not_mem_nil
      single := tidy.single
      cells := cells
      outside := fun off => by
        change filter.atMode = false at off
        rw [filterMode] at off
        cases off
      busy := fun busy => absurd idle busy
      used := fun _ => by
        change filter.atN = _
        rw [usedAfter, List.length_append, List.length_singleton]
      line := fun _ => lineAfter }

/-- The console after a line was handed over: nothing is typed, and what follows the byte
waits in the chunk or behind the command. -/
theorem handed (tidy : console.Tidy) {key : Keystroke} {rest : List Keystroke}
    (head : console.chunk = key :: rest) (idle : console.running = [])
    (submits : console.filter.submits key.byte = true)
    (noNul : 0 ∉ console.filter.atLine.take console.filter.atN) {filter : AtFilter}
    {chunk : List Keystroke} {running : List RunningCommand}
    (cells : filter.atLine.length = atLineMax) (emptied : running = [] → filter.atN = 0)
    (single : running.length ≤ 1)
    (unchanged : ∀ command ∈ running, cString filter.atLine = command.text)
    (waits : running.reverse.flatMap RunningCommand.rest ++ chunk = rest) :
    ({ console with
      filter := filter
      chunk := chunk
      running := running
      executed := console.executed ++ [console.filter.submitted]
      typed := console.typed.key key } : Console).Tidy := by
  obtain ⟨mode, ends, some⟩ := AtFilter.submits_iff.mp submits
  have used := tidy.used idle
  have nonempty : console.typed.line ≠ [] := by
    intro empty
    rw [used, empty] at some
    exact some rfl
  have typed : console.typed.key key =
      { line := []
        lines := console.typed.lines ++ [console.typed.line]
        places := console.typed.places ++ [key.index] } := by
    rw [TypedLines.key, if_pos ends, if_neg nonempty]
  have submitted : console.filter.submitted = console.typed.line.take (atLineMax - 1) := by
    rw [console.filter.submitted_eq tidy.cells (by unfold atLineMax at *; omega) noNul]
    exact tidy.line idle
  have places : Console.places { console with
      filter := filter
      chunk := chunk
      running := running
      executed := console.executed ++ [console.filter.submitted]
      typed := console.typed.key key } = console.places := by
    rw [places_typed head idle, Console.places, pending, waits, typed, List.append_assoc]
    rfl
  exact
    { executed := by
        rw [tidy.executed, typed, submitted, List.map_append, List.map_singleton]
      inOrder := by rw [places]; exact tidy.inOrder
      received := by rw [places]; exact tidy.received
      unchanged := unchanged
      single := single
      cells := cells
      outside := fun _ => by rw [typed]
      busy := fun _ => by rw [typed]
      used := fun none => by
        rw [typed]
        exact emptied none
      line := fun none => by
        change filter.atLine.take filter.atN = _
        rw [typed, emptied none]
        rfl }

/-- A line that ends is handed over as it was typed. -/
theorem key_submitted (tidy : console.Tidy) {key : Keystroke} {rest : List Keystroke}
    (head : console.chunk = key :: rest) (now : UInt32)
    (submits : console.filter.submits key.byte = true) (idle : console.running = [])
    (noNul : 0 ∉ console.filter.atLine.take console.filter.atN) :
    (console.key key rest now).Tidy := by
  obtain ⟨mode, ends, some⟩ := AtFilter.submits_iff.mp submits
  have cells : (upperHead console.filter.terminated).length = atLineMax := by
    rw [AtFilter.length_upperHead, AtFilter.terminated, List.length_set, tidy.cells]
  by_cases pairs : console.filter.command = pairText
  · have after : console.key key rest now =
        { console with
          filter := console.filter.beginExec now
          chunk := []
          running := [{ text := console.filter.command, rest := rest }]
          executed := console.executed ++ [console.filter.submitted]
          typed := console.typed.key key } := by
      simp [Console.key, submits, mode, pairs, idle]
    rw [after]
    exact tidy.handed head idle submits noNul cells
      (fun none => absurd none (List.cons_ne_nil _ _)) (Nat.le_refl 1)
      (fun command member => by
        rw [List.mem_singleton.mp member]
        rfl)
      (by simp)
  · have filtered : (console.filter.filterByte key.byte now).2 =
        { (console.filter.beginExec now).endExec with
          atMode := console.filter.command != atoText } := by
      rw [AtFilter.filterByte_typed mode, AtFilter.typed_submitted ends some]
    have left : (console.typed.key key).leave = console.typed.key key := by
      rw [TypedLines.key, if_pos ends, TypedLines.leave]
      split
      next empty => rw [← empty]
      next => rfl
    have after : console.key key rest now =
        { console with
          filter := (console.filter.filterByte key.byte now).2
          chunk := rest
          running := []
          executed := console.executed ++ [console.filter.submitted]
          typed := console.typed.key key } := by
      simp [Console.key, submits, mode, pairs, Console.settle, left, idle]
    rw [after, filtered]
    exact tidy.handed head idle submits noNul cells (fun _ => rfl) (Nat.zero_le 1)
      (fun _ member => absurd member List.not_mem_nil) rfl

theorem step (tidy : console.Tidy) (event : ConsoleEvent)
    (undisturbed : console.Undisturbed event) : (console.step event).Tidy := by
  cases event with
  | read bytes => exact tidy.read bytes
  | tick now => exact tidy.tick now
  | finish => exact tidy.finish
  | key now =>
      cases head : console.chunk with
      | nil =>
          simp only [Console.step, head]
          exact tidy
      | cons key rest =>
          have allowed := undisturbed key (by rw [head]; rfl)
          simp only [Console.step, head]
          by_cases idle : console.running = []
          · cases mode : console.filter.atMode with
            | false =>
                exact tidy.key_untyped head now fun on => by rw [mode] at on; cases on
            | true =>
                cases ends : endsLine key.byte with
                | false => exact tidy.key_inLine head now mode idle ends
                | true =>
                    by_cases empty : console.filter.atN = 0
                    · refine tidy.key_untyped head now fun _ => ⟨ends, empty, ?_⟩
                      have used := tidy.used idle
                      unfold atLineMax at used
                      exact List.length_eq_zero_iff.mp (by omega)
                    · have submits := AtFilter.submits_iff.mpr ⟨mode, ends, empty⟩
                      exact tidy.key_submitted head now submits idle
                        ((allowed mode).2 submits)
          · refine tidy.key_untyped head now fun mode => ?_
            obtain ⟨ends, empty⟩ := (allowed mode).1 idle
            exact ⟨ends, empty, tidy.busy idle⟩

end Tidy

end Console

end LoraSerial.Host
