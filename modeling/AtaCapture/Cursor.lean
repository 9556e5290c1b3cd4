import AtaCapture.Sample

/-!
A cursor reads a source of samples once, front to back. It can take the next sample, look at it
without taking it, or wait for watched lines to change. A source answers each question with a
sample or with its end; what it would answer after its end is never asked for.
-/

namespace AtaCapture

/-- The answers a source has still to give. A source that has run out of answers is at its
end. -/
abbrev Source := List (Option Sample)

structure Cursor where
  source : Source
  /-- A sample that was looked at and not taken. -/
  ahead : Option Sample := none
  /-- The sample taken last. -/
  current : Option Sample := none
  /-- The source has said that it is at its end. -/
  ended : Bool := false
  deriving DecidableEq, Repr, Inhabited

namespace Cursor

def ofSource (source : Source) : Cursor := { source }

def ofSamples (samples : List Sample) : Cursor := ofSource (samples.map some)

def ask (c : Cursor) : Option Sample × Cursor :=
  match c.source with
  | [] => (none, { c with ended := true })
  | none :: rest => (none, { c with source := rest, ended := true })
  | some s :: rest => (some s, { c with source := rest })

def next (c : Cursor) : Option Sample × Cursor :=
  if c.ended then (none, c)
  else match c.ahead with
    | some s => (some s, { c with ahead := none, current := some s })
    | none =>
      match c.ask with
      | (none, c) => (none, c)
      | (some s, c) => (some s, { c with current := some s })

def peek (c : Cursor) : Option Sample × Cursor :=
  match c.ahead with
  | some s => (some s, c)
  | none =>
    if c.ended then (none, c)
    else match c.ask with
      | (none, c) => (none, c)
      | (some s, c) => (some s, { c with ahead := some s })

def remaining (c : Cursor) : Nat := c.source.length + c.ahead.toList.length

theorem remaining_next_lt {c c' : Cursor} {s : Sample} (h : c.next = (some s, c')) :
    c'.remaining < c.remaining := by
  unfold next at h
  split at h
  · simp at h
  · cases ha : c.ahead with
    | some a =>
      simp only [ha, Prod.mk.injEq, Option.some.injEq] at h
      simp [← h.2, remaining, ha]
    | none =>
      simp only [ha, ask] at h
      cases hs : c.source with
      | nil => simp [hs] at h
      | cons x rest =>
        cases x with
        | none => simp [hs] at h
        | some a =>
          simp only [hs, Prod.mk.injEq, Option.some.injEq] at h
          simp [← h.2, remaining, ha, hs]

theorem remaining_next_le (c : Cursor) : c.next.2.remaining ≤ c.remaining := by
  unfold next
  split
  · exact Nat.le_refl _
  · cases ha : c.ahead with
    | some a => simp [remaining, ha]
    | none =>
      cases hs : c.source with
      | nil => simp [ask, remaining, ha, hs]
      | cons x rest => cases x <;> simp [ask, remaining, ha, hs]

theorem remaining_peek_le (c : Cursor) : c.peek.2.remaining ≤ c.remaining := by
  unfold peek
  cases ha : c.ahead with
  | some a => simp
  | none =>
    simp only [ask]
    split
    · simp
    · cases hs : c.source with
      | nil => simp [remaining, ha, hs]
      | cons x rest => cases x <;> simp [remaining, ha, hs]

/-- Whether a line of the mask differs between two vectors. The empty mask stands for any
sample. -/
def changes (mask before after : Nat) : Bool :=
  mask = 0 || ((before ^^^ after) &&& mask) != 0

/-- Takes samples until one differs from the one before it in a watched line. -/
def seek (c : Cursor) (mask before : Nat) : Option Sample × Cursor :=
  match _ : c.next with
  | (none, c) => (none, c)
  | (some s, c') =>
    if changes mask before s.levels then (some s, c') else c'.seek mask s.levels
termination_by c.remaining
decreasing_by exact remaining_next_lt ‹_›

theorem remaining_seek_lt {c c' : Cursor} {mask before : Nat} {s : Sample}
    (h : c.seek mask before = (some s, c')) : c'.remaining < c.remaining := by
  fun_induction seek c mask before with
  | case1 => simp at h
  | case2 c before t c1 hn hc =>
    simp only [Prod.mk.injEq, Option.some.injEq] at h
    exact h.2 ▸ remaining_next_lt hn
  | case3 c before t c1 hn hc ih => exact Nat.lt_trans (ih h) (remaining_next_lt hn)

theorem remaining_seek_le (c : Cursor) (mask before : Nat) :
    (c.seek mask before).2.remaining ≤ c.remaining := by
  fun_induction seek c mask before with
  | case1 c before c1 hn =>
    have := c.remaining_next_le
    rwa [hn] at this
  | case2 c before t c1 hn hc => exact Nat.le_of_lt (remaining_next_lt hn)
  | case3 c before t c1 hn hc ih => exact Nat.le_trans ih (Nat.le_of_lt (remaining_next_lt hn))

/-- Waits for a watched line to change. The very first sample is only what later ones are
compared with. -/
def wait (c : Cursor) (mask : Nat) : Option Sample × Cursor :=
  match c.current with
  | some s => c.seek mask s.levels
  | none =>
    match c.next with
    | (none, c) => (none, c)
    | (some s, c) => c.seek mask s.levels

theorem remaining_wait_lt {c c' : Cursor} {mask : Nat} {s : Sample}
    (h : c.wait mask = (some s, c')) : c'.remaining < c.remaining := by
  unfold wait at h
  split at h
  · exact remaining_seek_lt h
  · split at h
    · simp at h
    · exact Nat.lt_trans (remaining_seek_lt h) (remaining_next_lt ‹_›)

theorem remaining_wait_le (c : Cursor) (mask : Nat) :
    (c.wait mask).2.remaining ≤ c.remaining := by
  unfold wait
  split
  · exact remaining_seek_le ..
  · split
    · rename_i hn
      have := c.remaining_next_le
      rwa [hn] at this
    · rename_i hn
      exact Nat.le_trans (remaining_seek_le ..) (Nat.le_of_lt (remaining_next_lt hn))

def time (c : Cursor) : Nat := (c.current.map Sample.time).getD 0

def isFinished (c : Cursor) : Bool := c.ended && c.ahead.isNone

end Cursor

end AtaCapture
