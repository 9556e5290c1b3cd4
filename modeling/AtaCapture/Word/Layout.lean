import AtaCapture.Fault
import AtaCapture.Sample
import AtaCapture.Word.Bytes

/-!
The layout of capture words: a delay code in the top bits, a payload in the rest. A code below
the largest one announces a new level vector after some delay units, the shorter the larger the
code. The largest code says that nothing changed; its payload tells for how long, again
counting down. A layout carries what makes its words readable, so that a value of the type is
always usable.
-/

namespace AtaCapture

structure Layout where
  /-- Ticks of a delay unit. -/
  tick : Nat
  delayBits : Nat
  payloadBits : Nat
  /-- From this payload on an idle word stands for the longest pause. -/
  idleLimit : Nat
  /-- Units that every idle word adds to what its payload says. -/
  idleOffset : Nat
  fill : delayBits + payloadBits = 32
  one_le_delayBits : 1 ≤ delayBits
  delayBits_le : delayBits ≤ 8
  tick_pos : 0 < tick
  idleLimit_pos : 0 < idleLimit
  idleLimit_lt : idleLimit < 2 ^ payloadBits
  deriving DecidableEq, Repr

namespace Layout

def standard : Layout where
  tick := 5
  delayBits := 5
  payloadBits := 27
  idleLimit := 0x7FFFF
  idleOffset := 3
  fill := rfl
  one_le_delayBits := by decide
  delayBits_le := by decide
  tick_pos := by decide
  idleLimit_pos := by decide
  idleLimit_lt := by decide

instance : Inhabited Layout := ⟨standard⟩

/-- The layout with these numbers, or the first thing that is wrong with them. -/
def ofNumbers (tick delayBits payloadBits idleLimit idleOffset : Nat) : Except Fault Layout :=
  if fill : delayBits + payloadBits = 32 then
    if width : 1 ≤ delayBits ∧ delayBits ≤ 8 then
      if tick_pos : 0 < tick then
        if idle : 0 < idleLimit ∧ idleLimit < 2 ^ payloadBits then
          .ok { tick, delayBits, payloadBits, idleLimit, idleOffset, fill, tick_pos,
                one_le_delayBits := width.1, delayBits_le := width.2,
                idleLimit_pos := idle.1, idleLimit_lt := idle.2 }
        else .error (.layout (.idleMaximum idleLimit))
      else .error (.layout .zeroTick)
    else .error (.layout (.delayWidth delayBits))
  else .error (.layout (.widths delayBits payloadBits))

def idleCode (l : Layout) : Nat := 2 ^ l.delayBits - 1

def maxPayload (l : Layout) : Nat := 2 ^ l.payloadBits - 1

def shortestIdle (l : Layout) : Nat := l.idleOffset + 1

def longestIdle (l : Layout) : Nat := l.idleLimit + l.idleOffset

/-! ### Reading a word -/

def delayCode (l : Layout) (w : Word) : Nat := w.toNat / 2 ^ l.payloadBits

def payload (l : Layout) (w : Word) : Nat := w.toNat % 2 ^ l.payloadBits

/-- The units a word covers and, unless it is an idle word, the levels that hold after them. -/
def read (l : Layout) (w : Word) : Nat × Option Nat :=
  if l.delayCode w ≠ l.idleCode then (l.idleCode - l.delayCode w, some (l.payload w))
  else if l.payload w < l.idleLimit then (l.idleLimit - l.payload w + l.idleOffset, none)
  else (l.longestIdle, none)

def duration (l : Layout) (w : Word) : Nat := l.tick * (l.read w).1

/-! ### Writing words -/

def snapshotWord (l : Layout) (units : Nat) (levels : Nat) : Word :=
  BitVec.ofNat 32 (((l.idleCode - units) <<< l.payloadBits) ||| levels)

def idleWord (l : Layout) (units : Nat) : Word :=
  BitVec.ofNat 32 ((l.idleCode <<< l.payloadBits) ||| (l.longestIdle - units))

/-- How much of a pause its first idle word takes: all if it fits, else as much as possible,
but never so much that the rest is too short for a word of its own. -/
def idleStep (l : Layout) (units : Nat) : Nat :=
  if units ≤ l.longestIdle then units
  else if units - l.longestIdle < l.shortestIdle then units - l.shortestIdle
  else l.longestIdle

theorem shortestIdle_le_longestIdle (l : Layout) : l.shortestIdle ≤ l.longestIdle := by
  have := l.idleLimit_pos
  simp only [shortestIdle, longestIdle]
  omega

theorem idleStep_pos (l : Layout) {units : Nat} (h : 0 < units) : 0 < l.idleStep units := by
  have hle := l.shortestIdle_le_longestIdle
  have hpos : 0 < l.shortestIdle := Nat.succ_pos _
  simp only [idleStep]
  split
  · exact h
  · split <;> omega

theorem idleStep_le (l : Layout) (units : Nat) : l.idleStep units ≤ units := by
  simp only [idleStep]
  split
  · exact Nat.le_refl _
  · split <;> omega

def idleSteps (l : Layout) (units : Nat) : List Nat :=
  if _ : 0 < units then l.idleStep units :: l.idleSteps (units - l.idleStep units)
  else []
termination_by units
decreasing_by
  have := l.idleStep_pos ‹0 < units›
  omega

def idleWords (l : Layout) (units : Nat) : List Word := (l.idleSteps units).map l.idleWord

/-- Whether words can cover `units` exactly: one snapshot does, or idle words have room. -/
def Reaches (l : Layout) (units : Nat) : Prop := units ≤ l.idleCode ∨ l.shortestIdle ≤ units

instance (l : Layout) (units : Nat) : Decidable (l.Reaches units) := by
  unfold Reaches
  infer_instance

/-- The units left to the snapshot at the end of a gap: as many as it can take, unless the idle
words before it would then be too short for one word. -/
def lastUnits (l : Layout) (units : Nat) : Nat :=
  if units ≤ l.idleCode then units
  else if l.shortestIdle ≤ units - l.idleCode then l.idleCode
  else units - l.shortestIdle

def gapWords (l : Layout) (units : Nat) (levels : Nat) : List Word :=
  l.idleWords (units - l.lastUnits units) ++ [l.snapshotWord (l.lastUnits units) levels]

/-- The words that let `units` pass at the end of a recording. A pause too short for an idle
word announces the levels that hold anyway. -/
def tailWords (l : Layout) (units : Nat) (levels : Nat) : List Word :=
  if l.shortestIdle ≤ units then l.idleWords units else [l.snapshotWord units levels]

/-! ### Reading back what was written -/

theorem idleCode_lt (l : Layout) : l.idleCode < 2 ^ l.delayBits := by
  have hpos := Nat.two_pow_pos l.delayBits
  simp only [idleCode]
  omega

theorem word_lt (l : Layout) {code payload : Nat} (hc : code < 2 ^ l.delayBits)
    (hp : payload < 2 ^ l.payloadBits) : code * 2 ^ l.payloadBits + payload < 2 ^ 32 := by
  have h32 : 2 ^ l.delayBits * 2 ^ l.payloadBits = 2 ^ 32 := by rw [← Nat.pow_add, l.fill]
  have hle := Nat.mul_le_mul_right (2 ^ l.payloadBits) (Nat.succ_le_of_lt hc)
  rw [Nat.succ_mul] at hle
  omega

/-- A code and a payload that fit their fields are read as they were written. -/
theorem delayCode_payload (l : Layout) {code payload : Nat} (hc : code < 2 ^ l.delayBits)
    (hp : payload < 2 ^ l.payloadBits) :
    l.delayCode (BitVec.ofNat 32 ((code <<< l.payloadBits) ||| payload)) = code ∧
      l.payload (BitVec.ofNat 32 ((code <<< l.payloadBits) ||| payload)) = payload := by
  have hpos := Nat.two_pow_pos l.payloadBits
  rw [← Nat.shiftLeft_add_eq_or_of_lt hp, Nat.shiftLeft_eq]
  simp only [delayCode, Layout.payload, BitVec.toNat_ofNat, Nat.mod_eq_of_lt (l.word_lt hc hp)]
  rw [Nat.mul_comm, Nat.mul_add_div hpos, Nat.mul_add_mod, Nat.div_eq_of_lt hp,
    Nat.mod_eq_of_lt hp]
  exact ⟨Nat.add_zero _, rfl⟩

theorem read_snapshotWord (l : Layout) {units : Nat} {levels : Nat} (hpos : 0 < units)
    (hunits : units ≤ l.idleCode) (hlevels : levels ≤ l.maxPayload) :
    l.read (l.snapshotWord units levels) = (units, some levels) := by
  have hp : levels < 2 ^ l.payloadBits := by
    have hpow := Nat.two_pow_pos l.payloadBits
    simp only [maxPayload] at hlevels
    omega
  have hc : l.idleCode - units < 2 ^ l.delayBits :=
    Nat.lt_of_le_of_lt (Nat.sub_le _ _) l.idleCode_lt
  obtain ⟨hcode, hpayload⟩ := l.delayCode_payload hc hp
  have hne : l.idleCode - units ≠ l.idleCode := by omega
  have hback : l.idleCode - (l.idleCode - units) = units := by omega
  simp only [read, snapshotWord, hcode, hpayload, hne, hback, ne_eq, not_false_eq_true,
    ↓reduceIte]

theorem read_idleWord (l : Layout) {units : Nat} (hlow : l.shortestIdle ≤ units)
    (hhigh : units ≤ l.longestIdle) : l.read (l.idleWord units) = (units, none) := by
  have hlimit := l.idleLimit_lt
  simp only [shortestIdle] at hlow
  simp only [longestIdle] at hhigh
  have hp : l.longestIdle - units < 2 ^ l.payloadBits := by
    simp only [longestIdle]
    omega
  obtain ⟨hcode, hpayload⟩ := l.delayCode_payload l.idleCode_lt hp
  have hless : l.longestIdle - units < l.idleLimit := by
    simp only [longestIdle]
    omega
  have hback : l.idleLimit - (l.longestIdle - units) + l.idleOffset = units := by
    simp only [longestIdle]
    omega
  simp only [read, idleWord, hcode, hpayload, hless, hback, ne_eq, not_true_eq_false,
    ↓reduceIte]

end Layout

end AtaCapture
