import AtaCapture.Ata.Monitor

/-!
Reading the bus in one pass. The automaton sees every sample once, knows of the rest of the
capture only when the next sample comes, and remembers which of four things is going on:
nothing yet, a bus at rest, a strobe pulse or a gap in the capture. It is a second account of
what the monitor reports.
-/

namespace AtaCapture.Ata

inductive Phase where
  /-- No sample was seen. -/
  | start
  /-- Nothing begins with this sample. -/
  | rest (previous : Sample)
  /-- A strobe is low since a time, and this is the last sample with it low. -/
  | pulse (direction : Direction) (since : Nat) (latched : Sample)
  /-- The capture has a gap since a time. -/
  | gap (since : Nat)
  deriving DecidableEq, Repr, Inhabited

structure Account where
  phase : Phase := .start
  activity : Activity := .idle
  tally : Tally := {}
  deriving DecidableEq, Repr, Inhabited

namespace Automaton

def complete (m : Monitor) (a : Account) (x : Access) (s : Sample) : List Event × Account :=
  let (events, activity) := a.activity.step m.names x
  (x.event m.names :: events,
    { phase := .rest s, activity, tally := { a.tally with accesses := a.tally.accesses + 1 } })

def endGap (a : Account) (since time : Nat) (phase : Phase) : List Event × Account :=
  ([{ start := since, stop := time, content := .overflow }],
    { a with phase, tally := { a.tally with overflows := a.tally.overflows + 1 } })

def stayAtRest (m : Monitor) (a : Account) (s : Sample) (next : Option Nat) :
    List Event × Account :=
  let a := { a with phase := .rest s }
  match m.muxValue s with
  | none => ([], a)
  | some value =>
    if (next.map (· - s.time)).getD 0 < m.muxLimit then
      ([{ start := s.time, stop := m.muxStop s.time, content := .muxWrite value }],
        { a with tally := { a.tally with muxWrites := a.tally.muxWrites + 1 } })
    else ([], a)

def awake (m : Monitor) (a : Account) (s : Sample) (next : Option Nat) :
    List Event × Account :=
  if m.lines.isDead s then ([], { a with phase := .gap s.time })
  else if s.level m.lines.iow && s.level m.lines.ior then stayAtRest m a s next
  else if !s.level m.lines.iow then ([], { a with phase := .pulse .write s.time s })
  else ([], { a with phase := .pulse .read s.time s })

/-- One sample; `next` is the time of the one after it. -/
def step (m : Monitor) (a : Account) (s : Sample) (next : Option Nat) : List Event × Account :=
  match a.phase with
  | .start => ([], { a with phase := .rest s })
  | .rest previous =>
    if Cursor.changes m.lines.watched previous.levels s.levels then awake m a s next
    else ([], { a with phase := .rest s })
  | .pulse direction since latched =>
    if s.level (m.lines.strobe direction) then
      complete m a (m.lines.access direction since s.time latched) s
    else ([], { a with phase := .pulse direction since s })
  | .gap since =>
    if m.lines.isAlive s then endGap a since s.time (.rest s) else ([], a)

def cutOff (a : Account) (time : Nat) : List Event × Account :=
  match a.phase with
  | .gap since => endGap a since time a.phase
  | .pulse .. => ([], { a with tally := { a.tally with truncated := a.tally.truncated + 1 } })
  | _ => ([], a)

/-- The rest of a capture; `time` is that of the last sample seen. -/
def read (m : Monitor) (a : Account) (time : Nat) : List Sample → List Event × Tally
  | [] =>
    let (cut, a) := cutOff a time
    let (events, _) := a.activity.finish m.names time
    (cut ++ events, { a.tally with endTime := time })
  | s :: rest =>
    let (events, a) := step m a s (rest.head?.map Sample.time)
    let (later, tally) := read m a s.time rest
    (events ++ later, tally)

def run (m : Monitor) (samples : List Sample) : List Event × Tally :=
  let (events, tally) := read m {} 0 samples
  (events, { tally with events := events.length })

end Automaton

end AtaCapture.Ata
