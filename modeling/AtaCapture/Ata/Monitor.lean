import AtaCapture.Ata.Activity
import AtaCapture.Ata.Lines
import AtaCapture.Ata.Sink
import AtaCapture.Cursor

/-!
Watching the bus. The monitor sleeps until a strobe or the highest data line changes and then
looks at the bus once: all lines low is a gap in the capture that lasts until a strobe is high,
both strobes high may be a short write to the control mux, and a low strobe is an access that
lasts until the strobe rises, latched on the last sample before that. Accesses drive the
protocol activity, and everything found goes to a sink in the order in which it is known.
-/

namespace AtaCapture.Ata

structure Monitor where
  name : String := "ata_decoder"
  lines : Lines
  names : Names := .standard
  /-- A pulse on the control mux is shorter than this. -/
  muxLimit : Nat := 25
  /-- The length that is reported for it. -/
  muxSpan : Nat := 50
  deriving DecidableEq, Repr

structure Tally where
  /-- Complete strobe pulses. -/
  accesses : Nat := 0
  /-- Strobe pulses that the end of the capture cut off. -/
  truncated : Nat := 0
  overflows : Nat := 0
  muxWrites : Nat := 0
  /-- Events offered to the sink. -/
  events : Nat := 0
  /-- The time of the last sample. -/
  endTime : Nat := 0
  deriving DecidableEq, Repr, Inhabited

/-- Where a run stands between two looks at the bus. -/
structure Watch where
  cursor : Cursor
  activity : Activity := .idle
  tally : Tally := {}
  deriving DecidableEq, Repr

namespace Monitor

/-! ### Following the cursor -/

/-- Takes samples until a strobe is high, and gives the time of that sample; at the end of the
capture the time of the last sample. -/
def gapEnd (m : Monitor) (c : Cursor) : Nat × Cursor :=
  match _ : c.wait m.lines.watched with
  | (none, c) => (c.time, c)
  | (some s, c') => if m.lines.isAlive s then (s.time, c') else m.gapEnd c'
termination_by c.remaining
decreasing_by exact Cursor.remaining_wait_lt ‹_›

/-- Takes samples until the strobe is high. Gives the last sample before that and the time of
the rise, or nothing at the end of the capture. -/
def pulse (strobe : Nat) (latched : Sample) (c : Cursor) : Option (Sample × Nat) × Cursor :=
  match _ : c.next with
  | (none, c) => (none, c)
  | (some s, c') => if s.level strobe then (some (latched, s.time), c') else pulse strobe s c'
termination_by c.remaining
decreasing_by exact Cursor.remaining_next_lt ‹_›

/-! ### One look at the bus -/

def gap (m : Monitor) (w : Watch) (s : Sample) : List Event × Watch :=
  let (stop, cursor) := m.gapEnd w.cursor
  ([{ start := s.time, stop, content := .overflow }],
    { w with cursor, tally := { w.tally with overflows := w.tally.overflows + 1 } })

/-- The value that is written to the control mux if the sample holds only shortly. -/
def muxValue (m : Monitor) (s : Sample) : Option (BitVec 16) :=
  let value := m.lines.dataOf s
  if m.lines.dataSelect.any s.level && value ≠ 0xFFFF then some value else none

/-- The end that is reported for a write to the control mux. Times have 64 bits, so with a span
that is long enough it comes before the beginning. -/
def muxStop (m : Monitor) (time : Nat) : Nat := (time + m.muxSpan) % 2 ^ 64

/-- Both strobes are high. The next sample tells how long this one holds; the last one holds
for no time at all. -/
def rest (m : Monitor) (w : Watch) (s : Sample) : List Event × Watch :=
  match m.muxValue s with
  | none => ([], w)
  | some value =>
    let (next, cursor) := w.cursor.peek
    let held := (next.map fun next => next.time - s.time).getD 0
    if held < m.muxLimit then
      ([{ start := s.time, stop := m.muxStop s.time, content := .muxWrite value }],
        { w with cursor, tally := { w.tally with muxWrites := w.tally.muxWrites + 1 } })
    else ([], { w with cursor })

def complete (m : Monitor) (w : Watch) (x : Access) : List Event × Watch :=
  let (events, activity) := w.activity.step m.names x
  (x.event m.names :: events,
    { w with activity, tally := { w.tally with accesses := w.tally.accesses + 1 } })

def strobe (m : Monitor) (w : Watch) (s : Sample) (direction : Direction) :
    List Event × Watch :=
  match pulse (m.lines.strobe direction) s w.cursor with
  | (none, cursor) =>
    ([], { w with cursor, tally := { w.tally with truncated := w.tally.truncated + 1 } })
  | (some (latched, stop), cursor) =>
    m.complete { w with cursor } (m.lines.access direction s.time stop latched)

def look (m : Monitor) (w : Watch) (s : Sample) : List Event × Watch :=
  if m.lines.isDead s then m.gap w s
  else if s.level m.lines.iow && s.level m.lines.ior then m.rest w s
  else if !s.level m.lines.iow then m.strobe w s .write
  else m.strobe w s .read

/-! ### Looking never puts a sample back -/

theorem remaining_gapEnd_le (m : Monitor) (c : Cursor) :
    (m.gapEnd c).2.remaining ≤ c.remaining := by
  fun_induction gapEnd m c with
  | case1 c c1 h =>
    have := c.remaining_wait_le m.lines.watched
    rwa [h] at this
  | case2 c s c1 h halive => exact Nat.le_of_lt (Cursor.remaining_wait_lt h)
  | case3 c s c1 h halive ih =>
      exact Nat.le_trans ih (Nat.le_of_lt (Cursor.remaining_wait_lt h))

theorem remaining_pulse_le (strobe : Nat) (latched : Sample) (c : Cursor) :
    (pulse strobe latched c).2.remaining ≤ c.remaining := by
  fun_induction pulse strobe latched c with
  | case1 latched c c1 h =>
    have := c.remaining_next_le
    rwa [h] at this
  | case2 latched c s c1 h hbit => exact Nat.le_of_lt (Cursor.remaining_next_lt h)
  | case3 latched c s c1 h hbit ih =>
      exact Nat.le_trans ih (Nat.le_of_lt (Cursor.remaining_next_lt h))

theorem remaining_strobe_le (m : Monitor) (w : Watch) (s : Sample) (direction : Direction) :
    (m.strobe w s direction).2.cursor.remaining ≤ w.cursor.remaining := by
  have h := remaining_pulse_le (m.lines.strobe direction) s w.cursor
  unfold strobe
  split <;> simp_all [complete]

theorem remaining_look_le (m : Monitor) (w : Watch) (s : Sample) :
    (m.look w s).2.cursor.remaining ≤ w.cursor.remaining := by
  unfold look
  split
  · exact m.remaining_gapEnd_le w.cursor
  · split
    · have h := w.cursor.remaining_peek_le
      unfold rest
      split
      · exact Nat.le_refl _
      · dsimp only
        split <;> exact h
    · split <;> exact m.remaining_strobe_le ..

/-! ### The whole capture -/

/-- Offers events to a sink until it refuses one. The refused one is counted as well. -/
def deliver {σ : Type} (sink : Sink σ) (state : σ) (offered : Nat) :
    List Event → Option Fault × σ × Nat
  | [] => (none, state, offered)
  | e :: rest =>
    match sink.put state e with
    | (some fault, state) => (some fault, state, offered + 1)
    | (none, state) => deliver sink state (offered + 1) rest

/-- The end of the capture: what is under way ends with the last sample. -/
def close {σ : Type} (m : Monitor) (sink : Sink σ) (state : σ) (w : Watch) :
    Except Fault Tally × σ :=
  let endTime := w.cursor.time
  let (events, _) := w.activity.finish m.names endTime
  match deliver sink state w.tally.events events with
  | (some fault, state, _) => (.error fault, state)
  | (none, state, offered) => (.ok { w.tally with events := offered, endTime }, state)

def watch {σ : Type} (m : Monitor) (sink : Sink σ) (state : σ) (w : Watch) :
    Except Fault Tally × σ :=
  match _ : w.cursor.wait m.lines.watched with
  | (none, cursor) => m.close sink state { w with cursor }
  | (some s, cursor) =>
    let found := m.look { w with cursor } s
    match deliver sink state found.2.tally.events found.1 with
    | (some fault, state, _) => (.error fault, state)
    | (none, state, offered) =>
      m.watch sink state { found.2 with tally := { found.2.tally with events := offered } }
termination_by w.cursor.remaining
decreasing_by
  exact Nat.lt_of_le_of_lt (m.remaining_look_le ..) (Cursor.remaining_wait_lt ‹_›)

def run {σ : Type} (m : Monitor) (sink : Sink σ) (state : σ) (samples : List Sample) :
    Except Fault Tally × σ :=
  m.watch sink state { cursor := .ofSamples samples }

def events (m : Monitor) (samples : List Sample) : List Event :=
  (m.run .collect #[] samples).2.toList

def ofPinout (p : Pinout) : Except Fault Monitor := do
  return { lines := ← Lines.ofPinout p }

end Monitor

end AtaCapture.Ata
