import AtaCapture.Word.Layout

/-!
Recording level vectors as capture words. A recorder knows how far its words reach and which
vector they end with; a vector that does not differ from it costs nothing, and any other needs
a later time on a tick. The recorder hardware leaves a fixed mark where it lost samples, in the
standard layout whatever the layout of the recording.
-/

namespace AtaCapture

structure Recorder where
  layout : Layout
  /-- The time the words reach. -/
  time : Nat := 0
  /-- The vector announced last. -/
  levels : Option Nat := none
  written : Array Word := #[]
  deriving DecidableEq, Repr, Inhabited

namespace Recorder

def start (layout : Layout) : Recorder := { layout }

def unitsUntil (r : Recorder) (time : Nat) : Except Fault Nat :=
  if time ≤ r.time then .error (.encoding (.notLater time r.time))
  else if time % r.layout.tick ≠ 0 then .error (.encoding (.offTick time r.layout.tick))
  else
    let units := (time - r.time) / r.layout.tick
    if r.layout.Reaches units then .ok units else .error (.encoding (.unreachable units))

def announce (r : Recorder) (time : Nat) (levels : Nat) : Except Fault Recorder := do
  if r.layout.maxPayload < levels then
    throw (.encoding (.wideVector levels r.layout.payloadBits))
  if r.levels = some levels then
    return r
  let units ← r.unitsUntil time
  return { r with time, levels := some levels,
                  written := r.written ++ r.layout.gapWords units levels }

/-- The words that mark lost samples: all lines low, a pause, all lines high, all low again, a
second pause, and an idle word with the milliseconds of the recorder's clock. -/
def overflowMark (millis : Nat) : List Word :=
  [0xF0000000, 0xFBFF8ACF, 0xF7FFFFFF, 0xF0000000, 0xFBFF8ACF,
    BitVec.ofNat 32 (0xFC000000 + millis % 2 ^ 24)]

def append (r : Recorder) (w : Word) : Recorder :=
  { r with
    time := r.time + r.layout.duration w
    levels := (r.layout.read w).2.or r.levels
    written := r.written.push w }

def markOverflow (r : Recorder) (millis : Nat) : Recorder :=
  (overflowMark millis).foldl append r

/-- The words of the recording, made to last until `stop` if they end before. -/
def endAt (r : Recorder) (stop : Nat) : Except Fault (List Word) := do
  if stop ≤ r.time then
    return r.written.toList
  let units ← r.unitsUntil stop
  return r.written.toList ++ r.layout.tailWords units (r.levels.getD 0)

def bytesUntil (r : Recorder) (stop : Nat) : Except Fault (List UInt8) :=
  return Word.bytes (← r.endAt stop)

end Recorder

end AtaCapture
