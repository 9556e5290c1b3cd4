import AtaCapture.Proofs.Word.Faithful

/-!
Recording what was replayed. The samples that some words give, recorded again up to the time
these reach, give the same samples, and it takes no more words than there were. For a recorder
goes as far with every word as one can go, except that the last step but one of a pause may be
shorter, and that costs no word; a word of the capture that gave no sample is one that the
recorder can spare.
-/

namespace AtaCapture

namespace Layout

/-- The layout of the hardware, for a unit of some other length. -/
def standardWith (tick : Nat) (h : 0 < tick) : Layout := { standard with tick, tick_pos := h }

variable {l : Layout} {units : Nat}

theorem units_le_idleCode {w : Word} {levels : Nat} (h : (l.read w).2 = some levels) :
    (l.read w).1 ≤ l.idleCode := by
  simp only [read] at h ⊢
  split
  · exact Nat.sub_le _ _
  · rename_i hcode
    rw [if_neg hcode] at h
    split at h <;> cases h

theorem units_le (hlong : l.idleCode ≤ l.longestIdle) (w : Word) :
    (l.read w).1 ≤ l.longestIdle := by
  cases hread : (l.read w).2 with
  | none => exact units_le_longestIdle hread
  | some levels => exact Nat.le_trans (units_le_idleCode hread) hlong

/-! ### How many words a pause takes -/

theorem shortestIdle_le_mul {n : Nat} (hpos : 0 < n) : l.shortestIdle ≤ n * l.longestIdle :=
  Nat.le_trans l.shortestIdle_le_longestIdle (Nat.le_mul_of_pos_left _ hpos)

/-- What is left of a pause behind its first step fits into one word less than the pause. -/
theorem rest_of_idleStep_le {n : Nat} (h : units ≤ (n + 1) * l.longestIdle) :
    units - l.idleStep units ≤ n * l.longestIdle := by
  rw [Nat.succ_mul] at h
  simp only [idleStep]
  split
  · omega
  · -- The pause is longer than one word, so another one is there for what the step leaves.
    have hmore : n ≠ 0 := by
      rintro rfl
      omega
    have hroom := shortestIdle_le_mul (l := l) (Nat.pos_of_ne_zero hmore)
    split <;> omega

theorem length_idleSteps_le {n : Nat} (h : units ≤ n * l.longestIdle) :
    (l.idleSteps units).length ≤ n := by
  fun_induction idleSteps l units generalizing n with
  | case1 units hpos ih =>
      cases n with
      | zero => omega
      | succ n => exact Nat.succ_le_succ (ih (rest_of_idleStep_le h))
  | case2 units hzero => exact Nat.zero_le n

/-- What the snapshot behind a pause leaves of it fits into the words in front of the
snapshot. -/
theorem rest_of_lastUnits_le {n : Nat} (h : units ≤ l.idleCode + n * l.longestIdle) :
    units - l.lastUnits units ≤ n * l.longestIdle := by
  simp only [lastUnits]
  split
  · omega
  · have hmore : n ≠ 0 := by
      rintro rfl
      omega
    have hroom := shortestIdle_le_mul (l := l) (Nat.pos_of_ne_zero hmore)
    split <;> omega

theorem length_gapWords_le {n : Nat} (levels : Nat)
    (h : units ≤ l.idleCode + n * l.longestIdle) :
    (l.gapWords units levels).length ≤ n + 1 := by
  have hidle := length_idleSteps_le (rest_of_lastUnits_le h)
  simpa [gapWords, idleWords] using hidle

theorem length_tailWords_le {n : Nat} (levels : Nat) (hpos : 0 < units)
    (h : units ≤ n * l.longestIdle) : (l.tailWords units levels).length ≤ n := by
  rw [tailWords]
  split
  · simpa [idleWords] using length_idleSteps_le h
  · refine Nat.pos_of_ne_zero ?_
    rintro rfl
    omega

end Layout

/-! ### Recording along with a replay -/

namespace Recorder

/-- A recorder that has taken what a replay gave. Of the words that were replayed it has not
used so many that it could not cover with the rest the time since the vector that holds. -/
structure Follows (r : Recorder) (p : Replay) : Prop where
  layout : r.layout = p.layout
  consistent : r.Consistent
  levels : r.levels = p.latest.map Sample.levels
  reached : r.time ≤ p.time
  clock : p.layout.tick ∣ p.time
  spare : ∃ n, r.written.size + n ≤ p.count ∧
    p.time ≤ r.time + p.layout.tick * (n * p.layout.longestIdle)

theorem follows_start (l : Layout) : (start l).Follows (.start l) where
  layout := rfl
  consistent := consistent_start l
  levels := rfl
  reached := Nat.zero_le _
  clock := Nat.dvd_zero _
  spare := ⟨0, Nat.le_refl _, Nat.zero_le _⟩

variable {r : Recorder} {p : Replay}

/-- A word without a sample is one more to spare. -/
theorem Follows.keep (h : r.Follows p) (hlong : p.layout.idleCode ≤ p.layout.longestIdle)
    {p' : Replay} {w : Word} (hlayout : p'.layout = p.layout) (hlatest : p'.latest = p.latest)
    (htime : p'.time = p.time + p.layout.duration w) (hcount : p'.count = p.count + 1) :
    r.Follows p' where
  layout := h.layout.trans hlayout.symm
  consistent := h.consistent
  levels := hlatest ▸ h.levels
  reached := htime ▸ Nat.le_add_right_of_le h.reached
  clock := hlayout ▸ htime ▸ Nat.dvd_add h.clock (Nat.dvd_mul_right ..)
  spare := by
    obtain ⟨n, hsize, hcover⟩ := h.spare
    have hword := Nat.mul_le_mul_left p.layout.tick (Layout.units_le hlong w)
    refine ⟨n + 1, by omega, ?_⟩
    rw [hlayout, htime, Nat.succ_mul, Nat.mul_add, Layout.duration]
    omega

/-- A new vector takes no more words than were to spare, and the one it came with. -/
theorem Follows.sample (h : r.Follows p) (hl : p.layout.Faithful) {p' : Replay} {w : Word}
    {levels : Nat} (hread : (p.layout.read w).2 = some levels)
    (hchanged : p.latest.map Sample.levels ≠ some levels) (hlayout : p'.layout = p.layout)
    (hlatest : p'.latest.map Sample.levels = some levels)
    (htime : p'.time = p.time + p.layout.duration w) (hcount : p'.count = p.count + 1) :
    ∃ r', r.announce (p.time + p.layout.duration w) levels = .ok r' ∧ r'.Follows p' := by
  rw [← htime]
  obtain ⟨hsame, hr, hlevels, hreached, hclock, n, hsize, hcover⟩ := h
  rw [← hsame] at hl hread hclock hcover hlayout htime
  rw [← hlevels] at hchanged
  have hmoves := r.layout.duration_pos w
  have hfits := Layout.levels_le_of_read hread
  have hlater : r.time < p'.time := by omega
  have htick : r.layout.tick ∣ p'.time := htime ▸ Nat.dvd_add hclock (Nat.dvd_mul_right ..)
  obtain ⟨r', words, hok, hwords, -, -⟩ :=
    announce_of_changed hl hr hfits hchanged hlater htick
  have hwritten := announce_of_unitsUntil hfits hchanged (unitsUntil_eq_ok hl hlater htick)
  obtain rfl := Except.ok.inj (hok.symm.trans hwritten)
  have hunits : (p'.time - r.time) / r.layout.tick ≤ r.layout.idleCode +
      n * r.layout.longestIdle := by
    have hword := Nat.mul_le_mul_left r.layout.tick (Layout.units_le_idleCode hread)
    rw [Layout.duration] at htime
    refine Nat.div_le_of_le_mul ?_
    rw [Nat.mul_add]
    omega
  have hlength := Layout.length_gapWords_le levels hunits
  refine ⟨_, hok, ?_⟩
  exact {
    layout := hlayout.symm
    consistent := hr.extended hwords
    levels := hlatest.symm
    reached := Nat.le_refl _
    clock := hlayout ▸ htick
    spare := by
      refine ⟨0, ?_, Nat.le_add_right ..⟩
      rw [← Array.length_toList, Array.toList_appendList, List.length_append,
        Array.length_toList]
      omega }

theorem Follows.word (h : r.Follows p) (hl : p.layout.Faithful)
    (hlong : p.layout.idleCode ≤ p.layout.longestIdle) (w : Word) :
    ∃ r', r.announceAll (p.word w).1.toList = .ok r' ∧ r'.Follows (p.word w).2 := by
  simp only [Replay.word]
  cases hread : (p.layout.read w).2 with
  | none => exact ⟨r, rfl, h.keep hlong rfl rfl rfl rfl⟩
  | some levels =>
      dsimp only
      split
      · exact ⟨r, rfl, h.keep hlong rfl rfl rfl rfl⟩
      · rename_i hchanged
        rw [Option.toList_some, announceAll_singleton]
        refine h.sample hl hread hchanged ?_ ?_ ?_ ?_
        exacts [rfl, rfl, rfl, rfl]

theorem Follows.words (h : r.Follows p) (hl : p.layout.Faithful)
    (hlong : p.layout.idleCode ≤ p.layout.longestIdle) (words : List Word) :
    ∃ r', r.announceAll (p.words words).1 = .ok r' ∧ r'.Follows (p.words words).2 := by
  induction words generalizing r p with
  | nil => exact ⟨r, rfl, h⟩
  | cons w words ih =>
      obtain ⟨next, hok, hnext⟩ := h.word hl hlong w
      have hlayout : (p.word w).2.layout = p.layout := (p.moved_word w).layout
      obtain ⟨r', hrest, hr'⟩ := ih hnext (hlayout ▸ hl) (hlayout ▸ hlong)
      exact ⟨r', announceAll_append.mpr ⟨next, hok, hrest⟩, hr'⟩

/-- The end takes no more words than are to spare. -/
theorem Follows.endAt (h : r.Follows p) (hl : p.layout.Faithful) :
    ∃ again, r.endAt p.time = .ok again ∧ again.length ≤ p.count := by
  obtain ⟨hlayout, hr, -, -, hclock, n, hsize, hcover⟩ := h
  rw [← hlayout] at hl hclock hcover
  by_cases hlater : r.time < p.time
  · obtain ⟨hpos, -⟩ := tick_mul_units hr hlater hclock
    refine ⟨_, endAt_of_later hl hlater hclock, ?_⟩
    have hunits : (p.time - r.time) / r.layout.tick ≤ n * r.layout.longestIdle :=
      Nat.div_le_of_le_mul (by omega)
    have hlength := Layout.length_tailWords_le (r.levels.getD 0) hpos hunits
    rw [List.length_append, Array.length_toList]
    omega
  · refine ⟨_, endAt_of_not_later (Nat.not_lt.mp hlater), ?_⟩
    rw [Array.length_toList]
    omega

/-- What words give can be recorded again without loss and in no more words, if a snapshot
takes no longer than an idle word can. -/
theorem rerecorded {l : Layout} (hl : l.Faithful) (hlong : l.idleCode ≤ l.longestIdle)
    (words : List Word) :
    ∃ r again, (start l).announceAll ((Replay.start l).words words).1 = .ok r ∧
      r.endAt ((Replay.start l).words words).2.time = .ok again ∧
      (Replay.start l).samplesOfWords again = (Replay.start l).samplesOfWords words ∧
      again.length ≤ words.length := by
  obtain ⟨r, hok, hfollows⟩ := (follows_start l).words hl hlong words
  have hmoved := (Replay.start l).moved_words words
  obtain ⟨again, hend, hlength⟩ := hfollows.endAt (hmoved.layout ▸ hl)
  refine ⟨r, again, hok, hend, ?_, ?_⟩
  · have hgiven : ((Replay.start l).words words).1 =
        Sample.changes none (l.snapshots 0 words) :=
      hmoved.samples
    have htime : ((Replay.start l).words words).2.time = l.ticks words :=
      hmoved.time.trans (Nat.zero_add _)
    rw [samplesOfWords_announceAll hl hok hend, hgiven, Sample.changes_changes, htime,
      Replay.samplesOfWords_start]
  · rw [Replay.count_words] at hlength
    exact Nat.le_trans hlength (Nat.le_of_eq (Nat.zero_add _))

/-- What the hardware's words give, whatever a unit lasts, is recorded again without loss and
in no more words: every sample that a replay gives before the end is taken, in the order they
were given, and so is the time it has reached, and the words written then give the same
samples, the end included. -/
theorem rerecorded_standard (tick : Nat) (h : 0 < tick) (words : List Word) :
    let l := Layout.standardWith tick h
    let replayed := (Replay.start l).words words
    ∃ r again, (start l).announceAll replayed.1 = .ok r ∧ r.endAt replayed.2.time = .ok again ∧
      (Replay.start l).samplesOfWords again = (Replay.start l).samplesOfWords words ∧
      again.length ≤ words.length :=
  rerecorded (Layout.standard_faithful tick h)
    (show Layout.standard.idleCode ≤ Layout.standard.longestIdle by decide) words

/-- Two short pauses are written as one, and a vector that is repeated costs nothing. The pause
behind it takes as many words as before, the first of them shorter, and so does the one at the
end. -/
theorem rerecorded_standard_folded :
    let l := Layout.standardWith 7 (by decide)
    let words : List Word :=
      [0xF8000000, 0xF807FFFE, 0xF0000003, 0x00000003, 0xF8FFFFFF, 0xE8000000, 0xF807FFFE]
    let replayed := (Replay.start l).words words
    0 < 7 ∧ replayed.1 = [⟨3670065, 3⟩, ⟨7340326, 0⟩] ∧
      (Replay.start l).samplesOfWords words = [⟨3670065, 3⟩, ⟨7340326, 0⟩, ⟨7340354, 0⟩] ∧
      ∃ r again, (start l).announceAll replayed.1 = .ok r ∧
        r.endAt replayed.2.time = .ok again ∧
        (Replay.start l).samplesOfWords again = (Replay.start l).samplesOfWords words ∧
        again.length ≤ words.length :=
  ⟨by decide, by decide +kernel, by decide +kernel, rerecorded_standard 7 (by decide) _⟩

end Recorder

end AtaCapture
