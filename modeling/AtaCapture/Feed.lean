import AtaCapture.Word.Replay

/-!
A feed gives the samples of a capture one at a time while it reads the capture block by block.
It reads no further than the next sample needs. An interrupted read is repeated; a failed one
ends the capture just like its end does, and the reason is kept for whoever asks.
-/

namespace AtaCapture

inductive Delivery where
  | bytes (data : List UInt8)
  | failure (reason : String)
  | interrupted
  deriving DecidableEq, Repr

/-- The deliveries a reader has still to make. Bytes that do not fit the block come in several
reads; after the last delivery reads give no bytes. -/
abbrev Reader := List Delivery

namespace Reader

/-- An upper bound on the reads that still give something. -/
def weight : Reader → Nat
  | [] => 0
  | .bytes data :: rest => data.length + 1 + weight rest
  | _ :: rest => 1 + weight rest

/-- What one read gives, and what it leaves: bytes, at most a block of them, a failure or
nothing but the wish to be asked again. -/
def read (block : Nat) : Reader → Delivery × Reader
  | [] => (.bytes [], [])
  | .bytes data :: rest =>
    if data.length ≤ block then (.bytes data, rest)
    else (.bytes (data.take block), .bytes (data.drop block) :: rest)
  | delivery :: rest => (delivery, rest)

theorem weight_read_lt {block : Nat} (hblock : 0 < block) {r : Reader} (hr : r ≠ []) :
    weight (r.read block).2 < weight r := by
  match r with
  | .bytes data :: rest =>
    simp only [read]
    split
    · simp only [weight]
      omega
    · simp only [weight, List.length_drop]
      omega
  | .failure _ :: rest | .interrupted :: rest =>
    simp only [read, weight]
    omega

end Reader

structure Feed where
  reader : Reader
  /-- The most bytes that one read gives. -/
  block : Nat
  block_pos : 0 < block
  replay : Replay
  /-- Samples that were decoded and not given out. -/
  pending : List Sample := []
  bytesRead : Nat := 0
  given : Nat := 0
  ended : Bool := false
  /-- Why reading failed. -/
  failure : Option String := none
  deriving Repr

namespace Feed

def fileBlock : Nat := 65536

/-- A feed at the start of a capture; a block has at least one byte. -/
def start (reader : Reader) (layout : Layout) (block : Nat) : Feed where
  reader := reader
  block := max block 1
  block_pos := by omega
  replay := .start layout

def close (f : Feed) : Feed :=
  let (sample, replay) := f.replay.close
  { f with replay, pending := sample.toList, ended := true }

/-- One read and what it does to the feed. -/
def read (f : Feed) : Feed :=
  match f.reader.read f.block with
  | (.interrupted, reader) => { f with reader }
  | (.failure reason, reader) => close { f with reader, failure := some reason }
  | (.bytes [], reader) => close { f with reader }
  | (.bytes data, reader) =>
    let (pending, replay) := f.replay.chunk data
    { f with reader, replay, pending, bytesRead := f.bytesRead + data.length }

def effort (f : Feed) : Nat := f.reader.weight + (!f.ended).toNat

theorem effort_read_lt {f : Feed} (h : f.ended = false) : f.read.effort < f.effort := by
  have hread := Reader.weight_read_lt (r := f.reader) f.block_pos
  cases hr : f.reader with
  | nil => simp [read, close, effort, hr, h, Reader.read, Reader.weight]
  | cons delivery rest =>
    simp only [hr, ne_eq, reduceCtorEq, not_false_eq_true, forall_const] at hread
    simp only [read, effort, hr]
    split <;> simp_all [close] <;> omega

def fill (f : Feed) : Feed :=
  if _ : f.pending = [] ∧ f.ended = false then f.read.fill else f
termination_by f.effort
decreasing_by exact effort_read_lt (And.right ‹_›)

def next (f : Feed) : Option Sample × Feed :=
  let f := f.fill
  match f.pending with
  | [] => (none, f)
  | s :: rest => (some s, { f with pending := rest, given := f.given + 1 })

/-! ### All samples at once -/

/-- Gives out what is pending, behind the samples in `out`, each with the number of bytes read
by then. -/
def give (f : Feed) (out : Array (Sample × Nat)) : Array (Sample × Nat) × Feed :=
  (f.pending.foldl (fun out s => out.push (s, f.bytesRead)) out,
    { f with pending := [], given := f.given + f.pending.length })

def drainOnto (f : Feed) (out : Array (Sample × Nat)) : Array (Sample × Nat) × Feed :=
  if _ : f.ended = false then (f.give out).2.read.drainOnto (f.give out).1
  else f.give out
termination_by f.effort
decreasing_by exact effort_read_lt (f := (f.give out).2) ‹_›

def drain (f : Feed) : Array (Sample × Nat) × Feed := f.drainOnto #[]

/-- Takes the failure out, so that it is reported once. -/
def takeFailure (f : Feed) : Option String × Feed :=
  (f.failure, { f with failure := none })

end Feed

end AtaCapture
