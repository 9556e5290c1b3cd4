import AtaCapture.Word.Layout

/-!
Replaying a capture. Words move the clock and set the levels; a sample is given where the
levels differ from those of the sample before it. Bytes may come in pieces of any size, and a
word that is cut by the end of a piece is carried over to the next. At the end of the capture
one more sample marks the time reached, if the clock has moved past the last one.
-/

namespace AtaCapture

structure Replay where
  layout : Layout
  time : Nat := 0
  levels : Nat := 0
  /-- The sample given last. -/
  latest : Option Sample := none
  /-- The bytes of a word that is not complete yet. -/
  carry : List UInt8 := []
  /-- The words replayed so far. -/
  count : Nat := 0
  deriving DecidableEq, Repr, Inhabited

namespace Replay

def start (layout : Layout) : Replay := { layout }

def restart (r : Replay) : Replay := start r.layout

/-- One word: the clock moves, and a vector that differs from the one last given is a
sample. -/
def word (r : Replay) (w : Word) : Option Sample × Replay :=
  let time := r.time + r.layout.duration w
  match (r.layout.read w).2 with
  | none => (none, { r with time, count := r.count + 1 })
  | some levels =>
    if r.latest.map Sample.levels = some levels then
      (none, { r with time, levels, count := r.count + 1 })
    else
      let sample : Sample := { time, levels }
      (some sample, { r with time, levels, latest := some sample, count := r.count + 1 })

def words (r : Replay) : List Word → List Sample × Replay
  | [] => ([], r)
  | w :: rest =>
    let (sample, r) := r.word w
    let (samples, r) := r.words rest
    (sample.toList ++ samples, r)

def chunk (r : Replay) (bytes : List UInt8) : List Sample × Replay :=
  let (whole, carry) := Word.cut (r.carry ++ bytes)
  let (samples, r) := r.words whole
  (samples, { r with carry })

/-- The end of the capture. An incomplete word is dropped. -/
def close (r : Replay) : Option Sample × Replay :=
  let r := { r with carry := [] }
  if (r.latest.map Sample.time).getD 0 < r.time then
    let sample : Sample := { time := r.time, levels := r.levels }
    (some sample, { r with latest := some sample })
  else (none, r)

/-! ### Whole captures -/

def samplesOfWords (r : Replay) (words : List Word) : List Sample :=
  let (samples, r) := r.words words
  samples ++ r.close.1.toList

def decode (bytes : List UInt8) : List Sample :=
  let (samples, r) := (start .standard).chunk bytes
  samples ++ r.close.1.toList

end Replay

end AtaCapture
