import AtaCapture.Proofs.Word.Rerecording
import Mathlib

/-!
Writing pauses and gaps by subtraction. A machine writes a pause in a loop that takes a step
from the units left until there are none, and the payload of each word is a difference as well.
Here the loop has no bound on its rounds, and a difference below zero is no number. It comes to
an end for every pause, in as few rounds as words of the longest kind could cover it; and a gap
is written without going below zero if and only if words can cover it.
-/

namespace AtaCapture.Layout

/-! ### Differences that may fail -/

/-- How much of a pause its first idle word takes. -/
def idleStep? (l : Layout) (units : Nat) : Option Nat :=
  if units ≤ l.longestIdle then some units
  else do
    let beyond ← units.psub l.longestIdle
    if beyond < l.shortestIdle then units.psub l.shortestIdle else some l.longestIdle

def idleWord? (l : Layout) (units : Nat) : Option Word := do
  let payload ← l.longestIdle.psub units
  return BitVec.ofNat 32 ((l.idleCode <<< l.payloadBits) ||| payload)

def snapshotWord? (l : Layout) (units levels : Nat) : Option Word := do
  let code ← l.idleCode.psub units
  return BitVec.ofNat 32 ((code <<< l.payloadBits) ||| levels)

/-- Writes a pause behind the words that there are, step after step until nothing is left of
it. There is no result if a difference falls below zero, and none if that never ends. -/
def writePause (l : Layout) (units : Nat) (written : List Word) : Option (List Word) := do
  if units = 0 then return written
  let step ← l.idleStep? units
  let word ← l.idleWord? step
  let rest ← units.psub step
  l |>.writePause rest (written ++ [word])
partial_fixpoint

/-- The units of a gap that are left to the snapshot at its end. -/
def lastUnits? (l : Layout) (units : Nat) : Option Nat :=
  if units ≤ l.idleCode then some units
  else do
    let beyond ← units.psub l.idleCode
    if l.shortestIdle ≤ beyond then some l.idleCode else units.psub l.shortestIdle

def writeGap (l : Layout) (units levels : Nat) (written : List Word) : Option (List Word) := do
  let last ← l.lastUnits? units
  let pause ← units.psub last
  let paused ← l.writePause pause written
  let word ← l.snapshotWord? last levels
  return paused ++ [word]

variable {l : Layout} {units levels : Nat}

theorem idleStep?_eq (l : Layout) (units : Nat) :
    l.idleStep? units = some (l.idleStep units) := by
  have hle := l.shortestIdle_le_longestIdle
  rw [idleStep?, idleStep]
  split
  · rfl
  · rename_i hlong
    have hbeyond : units.psub l.longestIdle = some (units - l.longestIdle) :=
      Nat.psub_eq_sub (by omega)
    have hshort : units.psub l.shortestIdle = some (units - l.shortestIdle) :=
      Nat.psub_eq_sub (by omega)
    rw [hbeyond, hshort, Option.bind_eq_bind, Option.bind_some, ← apply_ite some]

theorem idleWord?_eq (h : units ≤ l.longestIdle) :
    l.idleWord? units = some (l.idleWord units) := by
  rw [idleWord?, Nat.psub_eq_sub h]
  rfl

theorem snapshotWord?_eq (levels : Nat) (h : units ≤ l.idleCode) :
    l.snapshotWord? units levels = some (l.snapshotWord units levels) := by
  rw [snapshotWord?, Nat.psub_eq_sub h]
  rfl

/-- The loop ends, and has written the steps of the pause. -/
theorem writePause_eq (l : Layout) (units : Nat) (written : List Word) :
    l.writePause units written = some (written ++ l.idleWords units) := by
  rw [idleWords]
  fun_induction idleSteps l units generalizing written with
  | case1 units hpos ih =>
      have hword := idleWord?_eq (l.idleStep_le_longestIdle units)
      have hrest : units.psub (l.idleStep units) = some (units - l.idleStep units) :=
        Nat.psub_eq_sub (l.idleStep_le units)
      rw [writePause, if_neg hpos.ne', idleStep?_eq, Option.bind_eq_bind, Option.bind_some,
        hword]
      simp only [Option.bind_eq_bind, Option.bind_some, hrest, ih, List.append_assoc,
        List.map_cons, List.singleton_append]
  | case2 units hzero =>
      rw [writePause, if_pos (by omega), List.map_nil, List.append_nil]
      rfl

theorem lastUnits?_eq (l : Layout) (units : Nat) :
    l.lastUnits? units = if l.Reaches units then some (l.lastUnits units) else none := by
  rw [lastUnits?, lastUnits]
  by_cases hsnapshot : units ≤ l.idleCode
  · rw [if_pos hsnapshot, if_pos hsnapshot, if_pos (.inl hsnapshot)]
  · have hbeyond : units.psub l.idleCode = some (units - l.idleCode) :=
      Nat.psub_eq_sub (by omega)
    rw [if_neg hsnapshot, if_neg hsnapshot, hbeyond, Option.bind_eq_bind, Option.bind_some]
    by_cases hshort : l.shortestIdle ≤ units
    · have hreached : l.Reaches units := .inr hshort
      rw [if_pos hreached, Nat.psub_eq_sub hshort, ← apply_ite some]
    · have hunreached : ¬ l.Reaches units := not_or.mpr ⟨hsnapshot, hshort⟩
      rw [if_neg hunreached, if_neg (by omega), Nat.psub_eq_none.mpr (by omega)]

/-- A gap is written unless words cannot cover it, and then a difference is below zero. -/
theorem writeGap_eq (l : Layout) (units levels : Nat) (written : List Word) :
    l.writeGap units levels written =
      if l.Reaches units then some (written ++ l.gapWords units levels) else none := by
  rw [writeGap, lastUnits?_eq]
  split
  · have hpause : units.psub (l.lastUnits units) = some (units - l.lastUnits units) :=
      Nat.psub_eq_sub (l.lastUnits_le units)
    simp only [Option.bind_eq_bind, Option.bind_some, hpause, writePause_eq,
      snapshotWord?_eq levels (l.lastUnits_le_idleCode units), gapWords, List.append_assoc]
    rfl
  · rfl

/-! ### Words and units -/

theorem longestIdle_pos (l : Layout) : 0 < l.longestIdle :=
  Nat.lt_of_lt_of_le (Nat.succ_pos _) l.shortestIdle_le_longestIdle

theorem le_longestIdle_of_mem (l : Layout) (units : Nat) :
    ∀ step ∈ l.idleSteps units, step ≤ l.longestIdle := by
  fun_induction idleSteps l units with
  | case1 units hpos ih => exact List.forall_mem_cons.mpr ⟨l.idleStep_le_longestIdle units, ih⟩
  | case2 units hzero => simp

/-- A pause takes no more words than it would if it could be cut anywhere. -/
theorem length_idleSteps (l : Layout) (units : Nat) :
    (l.idleSteps units).length = units ⌈/⌉ l.longestIdle := by
  refine Nat.le_antisymm (length_idleSteps_le ?_) ?_
  · rw [Nat.mul_comm]
    exact le_smul_ceilDiv l.longestIdle_pos
  · have hsum : (l.idleSteps units).sum ≤ (l.idleSteps units).length • l.longestIdle :=
      List.sum_le_card_nsmul _ _ (l.le_longestIdle_of_mem units)
    rw [ceilDiv_le_iff_le_mul l.longestIdle_pos, Nat.mul_comm]
    exact (l.sum_idleSteps units).symm.le.trans hsum

theorem map_read_gapWords (hl : l.Faithful) (hpos : 0 < units)
    (hlevels : levels ≤ l.maxPayload) :
    (l.gapWords units levels).map l.read =
      (l.idleSteps (units - l.lastUnits units)).map (fun step => (step, none)) ++
        [(l.lastUnits units, some levels)] := by
  rw [gapWords, List.map_append,
    map_read_idleWords hl.offset_lt_limit (rest_of_lastUnits hl units), List.map_singleton,
    l.read_snapshotWord (lastUnits_pos hl hpos) (l.lastUnits_le_idleCode units) hlevels]

/-- In every layout the loop that writes a pause ends without going below zero. Its steps add
up to the pause, and it writes one word for each, which are as many as it takes words of the
longest kind to cover the pause. The words are read as their steps if the offset of idle words
is below the limit of their payload and the pause is no shorter than the shortest of them. If
the offset is below their code as well, then a gap of any length is written without going below
zero, as idle words with one snapshot behind them, which are read as units that add up to the
gap, at least one of them and at most the largest code before the snapshot. -/
theorem words_of_units (l : Layout) (hpos : 1 ≤ units) :
    (∀ written, l.writePause units written =
      some (written ++ (l.idleSteps units).map l.idleWord)) ∧
    (l.idleSteps units).sum = units ∧ (l.idleSteps units).length = units ⌈/⌉ l.longestIdle ∧
    (l.idleOffset < l.idleLimit → l.shortestIdle ≤ units →
      ∀ step ∈ l.idleSteps units, l.read (l.idleWord step) = (step, none)) ∧
    (l.idleOffset < l.idleLimit → l.idleOffset < l.idleCode → ∀ levels ≤ l.maxPayload,
      (∀ written, l.writeGap units levels written =
        some (written ++ l.gapWords units levels)) ∧
      ∃ (steps : List Nat) (last : Nat), 1 ≤ last ∧ last ≤ l.idleCode ∧
      steps.sum + last = units ∧
        l.gapWords units levels = steps.map l.idleWord ++ [l.snapshotWord last levels] ∧
        (l.gapWords units levels).map l.read =
          steps.map (fun step => (step, none)) ++ [(last, some levels)]) := by
  refine ⟨l.writePause_eq units, l.sum_idleSteps units, l.length_idleSteps units, ?_, ?_⟩
  · intro hlimit hshort step hstep
    obtain ⟨hlow, hhigh⟩ := mem_idleSteps hlimit (.inr hshort) step hstep
    exact l.read_idleWord hlow hhigh
  · intro hlimit hcode levels hlevels
    have hl : l.Faithful := ⟨hcode, hlimit⟩
    have hsum : (l.idleSteps (units - l.lastUnits units)).sum = units - l.lastUnits units :=
      l.sum_idleSteps _
    refine ⟨fun written => ?_, l.idleSteps (units - l.lastUnits units), l.lastUnits units,
      lastUnits_pos hl hpos, l.lastUnits_le_idleCode units, ?_, rfl,
      map_read_gapWords hl hpos hlevels⟩
    · rw [writeGap_eq, if_pos (hl.reaches units)]
    · rw [hsum, Nat.sub_add_cancel (l.lastUnits_le units)]

/-- A pause that is cut before the longest step, since too little would be left, and a gap
whose snapshot is cut short for the pause before it. -/
theorem words_of_units_borrowed :
    let l : Layout := { Layout.standard with
      delayBits := 3, payloadBits := 29, idleLimit := 4, fill := by decide,
      one_le_delayBits := by decide, delayBits_le := by decide, idleLimit_pos := by decide,
      idleLimit_lt := by decide }
    1 ≤ 9 ∧ l.writePause 9 [] = some [l.idleWord 5, l.idleWord 4] ∧ 9 ⌈/⌉ l.longestIdle = 2 ∧
      l.idleOffset < l.idleLimit ∧ l.idleOffset < l.idleCode ∧ l.shortestIdle ≤ 9 ∧
      6 ≤ l.maxPayload ∧
      l.read (l.idleWord 5) = (5, none) ∧ l.read (l.idleWord 4) = (4, none) ∧
      l.writeGap 9 6 [] = some [l.idleWord 4, l.snapshotWord 5 6] := by
  intro l
  have hsteps : l.idleSteps 9 = [5, 4] := by decide +kernel
  have hgap : l.gapWords 9 6 = [l.idleWord 4, l.snapshotWord 5 6] := by decide +kernel
  have hlimit : l.idleOffset < l.idleLimit := by decide
  have hcode : l.idleOffset < l.idleCode := by decide
  have hlevels : 6 ≤ l.maxPayload := by decide
  obtain ⟨hpause, -, hcount, hread, hgaps⟩ := words_of_units l (show 1 ≤ 9 by decide)
  rw [hsteps] at hpause hcount hread
  have hread := hread hlimit (by decide)
  refine ⟨by decide, hpause [], hcount.symm, hlimit, hcode, by decide, hlevels, ?_, ?_, ?_⟩
  · exact hread 5 (by simp)
  · exact hread 4 (by simp)
  · rw [(hgaps hlimit hcode 6 hlevels).1, hgap]
    rfl

end AtaCapture.Layout
