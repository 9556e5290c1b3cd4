import AtaCapture.Word.Layout

/-!
Pauses in capture words. A pause is cut into steps, one for every idle word, and a gap is a
pause with one snapshot behind it. The steps always add up to the pause. They are read back as
they were written where an idle word has room for a step of the shortest length beside a full
one, and a gap that is too long for a snapshot is long enough for an idle word.
-/

namespace AtaCapture.Layout

/-- What the numbers of a layout owe to each other so that any pause can be written. Nothing
checks this when a layout is made. -/
structure Faithful (l : Layout) : Prop where
  offset_lt_code : l.idleOffset < l.idleCode
  offset_lt_limit : l.idleOffset < l.idleLimit

/-- The recorder's own layout is faithful, whatever a unit lasts. -/
theorem standard_faithful (tick : Nat) (h : 0 < tick) :
    Faithful { standard with tick, tick_pos := h } where
  offset_lt_code := show standard.idleOffset < standard.idleCode by decide
  offset_lt_limit := show standard.idleOffset < standard.idleLimit by decide

variable {l : Layout} {units : Nat}

theorem Faithful.reaches (hl : l.Faithful) (units : Nat) : l.Reaches units := by
  have hcode := hl.offset_lt_code
  simp only [Reaches, shortestIdle]
  omega

/-! ### Steps of a pause -/

theorem sum_idleSteps (l : Layout) (units : Nat) :
    (l.idleSteps units).foldr (· + ·) 0 = units := by
  fun_induction idleSteps l units with
  | case1 units hpos ih =>
      have hle := l.idleStep_le units
      rw [List.foldr_cons, ih]
      omega
  | case2 units hzero =>
      rw [List.foldr_nil]
      omega

theorem idleStep_le_longestIdle (l : Layout) (units : Nat) :
    l.idleStep units ≤ l.longestIdle := by
  have hle := l.shortestIdle_le_longestIdle
  simp only [idleStep]
  split
  · assumption
  · split <;> omega

/-- What a step leaves is nothing or enough for a word of its own. -/
theorem rest_of_idleStep (l : Layout) (units : Nat) :
    units - l.idleStep units = 0 ∨ l.shortestIdle ≤ units - l.idleStep units := by
  have hle := l.shortestIdle_le_longestIdle
  simp only [idleStep]
  split
  · left
    omega
  · split <;> right <;> omega

theorem shortestIdle_le_idleStep (hlimit : l.idleOffset < l.idleLimit)
    (h : l.shortestIdle ≤ units) : l.shortestIdle ≤ l.idleStep units := by
  have hshort : l.shortestIdle = l.idleOffset + 1 := rfl
  have hlong : l.longestIdle = l.idleLimit + l.idleOffset := rfl
  simp only [idleStep]
  split
  · exact h
  · -- A step that leaves the shortest one behind is shorter than the longest by the offset at
    -- most.
    split <;> omega

theorem mem_idleSteps (hlimit : l.idleOffset < l.idleLimit)
    (h : units = 0 ∨ l.shortestIdle ≤ units) :
    ∀ step ∈ l.idleSteps units, l.shortestIdle ≤ step ∧ step ≤ l.longestIdle := by
  fun_induction idleSteps l units with
  | case1 units hpos ih =>
      intro step hstep
      rcases List.mem_cons.mp hstep with rfl | hstep
      · have hlong : l.shortestIdle ≤ units := by omega
        exact ⟨shortestIdle_le_idleStep hlimit hlong, l.idleStep_le_longestIdle units⟩
      · exact ih (l.rest_of_idleStep units) step hstep
  | case2 units hzero => simp

theorem map_read_idleWords (hlimit : l.idleOffset < l.idleLimit)
    (h : units = 0 ∨ l.shortestIdle ≤ units) :
    (l.idleWords units).map l.read = (l.idleSteps units).map fun step => (step, none) := by
  rw [idleWords, List.map_map]
  refine List.map_congr_left fun step hstep => ?_
  obtain ⟨hlow, hhigh⟩ := mem_idleSteps hlimit h step hstep
  exact l.read_idleWord hlow hhigh

/-! ### The snapshot behind a pause -/

theorem lastUnits_le (l : Layout) (units : Nat) : l.lastUnits units ≤ units := by
  simp only [lastUnits]
  split
  · exact Nat.le_refl _
  · split <;> omega

theorem lastUnits_pos (hl : l.Faithful) (h : 0 < units) : 0 < l.lastUnits units := by
  have hcode := hl.offset_lt_code
  have hshort : l.shortestIdle = l.idleOffset + 1 := rfl
  simp only [lastUnits]
  split
  · exact h
  · split <;> omega

theorem lastUnits_le_idleCode (l : Layout) (units : Nat) : l.lastUnits units ≤ l.idleCode := by
  simp only [lastUnits]
  split
  · assumption
  · split <;> omega

/-- What the snapshot leaves to idle words is nothing or enough for one. -/
theorem rest_of_lastUnits (hl : l.Faithful) (units : Nat) :
    units - l.lastUnits units = 0 ∨ l.shortestIdle ≤ units - l.lastUnits units := by
  have hcode := hl.offset_lt_code
  have hshort : l.shortestIdle = l.idleOffset + 1 := rfl
  simp only [lastUnits]
  split
  · left
    omega
  · split <;> right <;> omega

end AtaCapture.Layout
