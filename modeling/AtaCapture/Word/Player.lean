import AtaCapture.Word.Replay

/-!
Playing a capture back as it comes. Bytes that come in pieces are taken where they lie: what is
missing of a word that the last piece has cut is taken first, then whole words, and what is
left over is kept for the next piece. A player takes its words one at a time, no more of them
than the next sample needs.
-/

namespace AtaCapture

namespace Replay

/-- The whole words at the head of some bytes; those behind them are kept. -/
def absorbWhole (r : Replay) (bytes : List UInt8) : List Sample × Replay :=
  let (whole, left) := Word.cut bytes
  let (samples, r) := r.words whole
  (samples, { r with carry := r.carry ++ left })

def absorb (r : Replay) (bytes : List UInt8) : List Sample × Replay :=
  if r.carry = [] then r.absorbWhole bytes
  else
    let missing := 4 - r.carry.length
    match r.carry ++ bytes.take missing with
    | b0 :: b1 :: b2 :: b3 :: _ =>
      let (sample, r) := { r with carry := [] }.word (Word.ofBytes b0 b1 b2 b3)
      let (samples, r) := r.absorbWhole (bytes.drop missing)
      (sample.toList ++ samples, r)
    | carry => ([], { r with carry })

def absorbAll (r : Replay) : List (List UInt8) → List Sample × Replay
  | [] => ([], r)
  | bytes :: rest =>
    let (samples, r) := r.absorb bytes
    let (later, r) := r.absorbAll rest
    (samples ++ later, r)

def seek (r : Replay) : List Word → Option Sample × Replay × List Word
  | [] => (none, r, [])
  | w :: rest =>
    match r.word w with
    | (some sample, r) => (some sample, r, rest)
    | (none, r) => r.seek rest

end Replay

structure Player where
  replay : Replay
  /-- The words not yet taken. -/
  words : List Word
  ended : Bool := false
  deriving DecidableEq, Repr

namespace Player

def start (layout : Layout) (words : List Word) : Player where
  replay := .start layout
  words := words

/-- The next sample. The last one is that of the end of the capture; behind it there is
none. -/
def next (p : Player) : Option Sample × Player :=
  if p.ended then (none, p)
  else
    match p.replay.seek p.words with
    | (some sample, replay, words) => (some sample, { p with replay, words })
    | (none, replay, words) =>
      let (sample, replay) := replay.close
      (sample, { replay, words, ended := true })

end Player

end AtaCapture
