import AtaCapture.Proofs.Word.RoundTrip
import AtaCapture.Proofs.Word.Waveform

/-!
The layouts in which a recording can be trusted. In a faithful layout the words of a recording
show the changes among the vectors that were taken and then the end that was asked for. Nothing
keeps a recorder from using any other layout, but in each of them it takes some vectors and
writes words that show something else: where the offset of idle words reaches their code, the
snapshot behind a pause of the shortest length is left no unit and becomes an idle word itself;
where it reaches the limit of their payload, one step of a long pause is too short and is read
as the longest one.
-/

namespace AtaCapture

namespace Sample

theorem changes_changes (levels : Option Nat) (samples : List Sample) :
    changes levels (changes levels samples) = changes levels samples := by
  induction samples generalizing levels with
  | nil => rfl
  | cons s samples ih =>
      rw [changes]
      split
      · exact ih levels
      · rename_i hdiffers
        rw [changes, if_neg hdiffers, ih]

theorem heldUntil_nil {stop : Nat} (hpos : 0 < stop) :
    heldUntil [] stop = [{ time := stop, levels := 0 }] := if_pos hpos

/-- An end before the last sample comes to the same as an end with it. -/
theorem heldUntil_max (samples : List Sample) (stop : Nat) :
    heldUntil samples (max stop ((samples.getLast?.map Sample.time).getD 0)) =
      heldUntil samples stop := by
  have hlast : (samples.getLast?.getD { time := 0, levels := 0 }).time =
      (samples.getLast?.map Sample.time).getD 0 := by
    cases samples.getLast? <;> rfl
  simp only [heldUntil, hlast]
  by_cases hstop : (samples.getLast?.map Sample.time).getD 0 < stop
  · rw [Nat.max_eq_left (Nat.le_of_lt hstop)]
  · rw [Nat.max_eq_right (Nat.not_lt.mp hstop), if_neg (Nat.lt_irrefl _), if_neg hstop]

end Sample

/-! ### Vectors in a row, all taken -/

namespace Recorder

open Sample

def announceAll (r : Recorder) (samples : List Sample) : Except Fault Recorder :=
  samples.foldlM (fun r s => r.announce s.time s.levels) r

theorem announceAll_singleton (r : Recorder) (s : Sample) :
    r.announceAll [s] = r.announce s.time s.levels := bind_pure _

theorem announceAll_append {r r' : Recorder} {a b : List Sample} :
    r.announceAll (a ++ b) = .ok r' ↔
      ∃ next, r.announceAll a = .ok next ∧ next.announceAll b = .ok r' := by
  simp only [announceAll, List.foldlM_append]
  cases List.foldlM (fun r s => announce r s.time s.levels) r a with
  | error fault => simp [bind, Except.bind]
  | ok next => simp [bind, Except.bind]

theorem announceAll_cons {r r' : Recorder} {s : Sample} {samples : List Sample} :
    r.announceAll (s :: samples) = .ok r' ↔
      ∃ next, r.announce s.time s.levels = .ok next ∧ next.announceAll samples = .ok r' := by
  rw [← announceAll_singleton]
  exact announceAll_append (a := [s])

/-- A faithful recorder that takes some vectors writes their changes. -/
theorem announceAll_extended {r r' : Recorder} (hl : r.layout.Faithful) (hr : r.Consistent)
    {samples : List Sample} (hok : r.announceAll samples = .ok r') :
    ∃ words, Extended r r' words ∧ r.layout.snapshots r.time words = changes r.levels samples ∧
      r'.time = ((changes r.levels samples).getLast?.map Sample.time).getD r.time := by
  induction samples generalizing r with
  | nil =>
      obtain rfl : r = r' := Except.ok.inj hok
      exact ⟨[], .refl r, rfl, rfl⟩
  | cons s samples ih =>
      obtain ⟨next, hnext, hrest⟩ := announceAll_cons.mp hok
      obtain ⟨hfits, hlater⟩ := (accepts_iff hl hr).mp ⟨next, hnext⟩
      by_cases hsame : r.levels = some s.levels
      · rw [announce_of_same hfits hsame, Except.ok.injEq] at hnext
        subst hnext
        rw [changes, if_pos hsame]
        exact ih hl hr hrest
      · obtain ⟨hlater, htick⟩ := hlater.resolve_left hsame
        obtain ⟨next', first, hok', hfirst, hshown, htime⟩ :=
          announce_of_changed hl hr hfits hsame hlater htick
        obtain rfl : next = next' := Except.ok.inj (hnext.symm.trans hok')
        obtain ⟨words, hwords, hchanges, hlast⟩ :=
          ih (hfirst.layout ▸ hl) (hr.extended hfirst) hrest
        have hlevels : next.levels = some s.levels := by
          rw [hfirst.levels, hshown]
          rfl
        rw [hlevels] at hchanges hlast
        refine ⟨first ++ words, hfirst.trans hwords, ?_, ?_⟩
        · rw [Layout.snapshots_append, hshown, ← hfirst.time, ← hfirst.layout, hchanges,
            changes, if_neg hsame]
          rfl
        · rw [hlast, htime, changes, if_neg hsame, List.getLast?_cons]
          cases (changes (some s.levels) samples).getLast? <;> rfl

theorem samplesOfWords_announceAll {l : Layout} (hl : l.Faithful) {samples : List Sample}
    {stop : Nat} {r : Recorder} {words : List Word}
    (hok : (start l).announceAll samples = .ok r) (hend : r.endAt stop = .ok words) :
    (Replay.start l).samplesOfWords words = heldUntil (changes none samples) stop := by
  obtain ⟨written, hwritten, hchanges, hlast⟩ :=
    announceAll_extended (r := start l) hl (consistent_start l) hok
  have hr : r.Consistent := (consistent_start l).extended hwritten
  have hlayout : r.layout = l := hwritten.layout
  have hwords : r.written.toList = written := hwritten.written
  have hl' : r.layout.Faithful := hlayout ▸ hl
  have hshown : l.snapshots 0 written = changes none samples := hchanges
  have htime : r.time = ((changes none samples).getLast?.map Sample.time).getD 0 := hlast
  have hread := samplesOfWords_endAt hl' hr hend
  rw [hlayout, hwords, hshown, changes_changes, htime, heldUntil_max] at hread
  exact hread

end Recorder

/-! ### Layouts that lose something -/

namespace Layout

open Sample

variable {l : Layout}

theorem idleCode_pos (l : Layout) : 0 < l.idleCode := by
  have hpow := Nat.pow_le_pow_right Nat.two_pos l.one_le_delayBits
  rw [idleCode]
  omega

theorem maxPayload_pos (l : Layout) : 0 < l.maxPayload := by
  have hpos := l.idleLimit_pos
  have hlt := l.idleLimit_lt
  rw [maxPayload]
  omega

/-- A delay code takes a byte at most, so a payload is wider than any of them. -/
theorem idleCode_lt_maxPayload (l : Layout) : l.idleCode < l.maxPayload := by
  have hfill := l.fill
  have hbits := l.delayBits_le
  have hcode : 2 ^ l.delayBits ≤ 2 ^ 8 := Nat.pow_le_pow_right Nat.two_pos hbits
  have hpayload : 2 ^ 24 ≤ 2 ^ l.payloadBits := Nat.pow_le_pow_right Nat.two_pos (by omega)
  rw [idleCode, maxPayload]
  omega

theorem idleSteps_shortestIdle (l : Layout) :
    l.idleSteps l.shortestIdle = [l.shortestIdle] := by
  have hpos : 0 < l.shortestIdle := Nat.succ_pos _
  have hstep : l.idleStep l.shortestIdle = l.shortestIdle :=
    if_pos l.shortestIdle_le_longestIdle
  rw [idleSteps, dif_pos hpos, hstep, Nat.sub_self, idleSteps, dif_neg (Nat.lt_irrefl 0)]

/-- A word that announces no vector covers no more units than the longest idle word. -/
theorem units_le_longestIdle {w : Word} (h : (l.read w).2 = none) :
    (l.read w).1 ≤ l.longestIdle := by
  have hlong : l.longestIdle = l.idleLimit + l.idleOffset := rfl
  simp only [read] at h ⊢
  split
  · rename_i hcode
    rw [if_pos hcode] at h
    cases h
  · split <;> dsimp only <;> omega

theorem ticks_le_of_silent {words : List Word} (h : ∀ w ∈ words, (l.read w).2 = none) :
    l.ticks words ≤ l.tick * (words.length * l.longestIdle) := by
  induction words with
  | nil => exact Nat.zero_le _
  | cons w words ih =>
      have hword := Nat.mul_le_mul_left l.tick (units_le_longestIdle (h w List.mem_cons_self))
      have hrest := ih fun v hv => h v (List.mem_cons_of_mem w hv)
      rw [ticks_cons, duration, List.length_cons, Nat.succ_mul, Nat.mul_add]
      omega

theorem samplesOfWords_of_silent {words : List Word} (h : ∀ w ∈ words, (l.read w).2 = none) :
    (Replay.start l).samplesOfWords words = heldUntil [] (l.ticks words) := by
  rw [Replay.samplesOfWords_start, snapshots_eq_nil h]
  rfl

/-- `words` record the vectors of `samples`, all of which are taken, and last until `stop`. -/
def Recorded (l : Layout) (samples : List Sample) (stop : Nat) (words : List Word) : Prop :=
  ∃ r, (Recorder.start l).announceAll samples = .ok r ∧ r.endAt stop = .ok words

/-- Whatever is recorded, its words show the changes and then the end. -/
def ReadsBack (l : Layout) : Prop :=
  ∀ samples stop words, (∀ s ∈ samples, s.time < 2 ^ 64) → stop < 2 ^ 64 →
    l.Recorded samples stop words →
      (Replay.start l).samplesOfWords words = heldUntil (changes none samples) stop

/-- A recording of two idle words that does not show what was recorded. -/
structure Misread (l : Layout) (samples : List Sample) (stop : Nat) (words : List Word) :
    Prop where
  recorded : l.Recorded samples stop words
  within : (∀ s ∈ samples, s.time ≤ l.tick * (l.longestIdle + 1)) ∧
    stop ≤ l.tick * (l.longestIdle + 1)
  two : words.length = 2
  silent : ∀ w ∈ words, (l.read w).2 = none
  differs : heldUntil [] (l.ticks words) ≠ heldUntil (changes none samples) stop

theorem unitsUntil_start {units : Nat} (hpos : 0 < units) (hreaches : l.Reaches units) :
    (Recorder.start l).unitsUntil (l.tick * units) = .ok units := by
  have hlater : (Recorder.start l).time < l.tick * units := Nat.mul_pos l.tick_pos hpos
  have hunits : (l.tick * units - 0) / l.tick = units := Nat.mul_div_cancel_left _ l.tick_pos
  have h :=
    Recorder.unitsUntil_of_reaches hlater (Nat.dvd_mul_right ..) (hunits.symm ▸ hreaches)
  exact h.trans (congrArg Except.ok hunits)

/-! The snapshot behind the shortest pause is left no unit and reads as an idle word. -/

theorem gapWords_shortestIdle (h : l.idleCode ≤ l.idleOffset) (levels : Nat) :
    l.gapWords l.shortestIdle levels =
      [l.idleWord l.shortestIdle, l.snapshotWord 0 levels] := by
  have hcode := l.idleCode_pos
  have hshort : l.shortestIdle = l.idleOffset + 1 := rfl
  have hlast : l.lastUnits l.shortestIdle = 0 := by
    rw [lastUnits, if_neg (by omega), if_neg (by omega), Nat.sub_self]
  rw [gapWords, hlast, Nat.sub_zero, idleWords, idleSteps_shortestIdle]
  rfl

theorem read_snapshotWord_zero {levels : Nat} (hlevels : levels < 2 ^ l.payloadBits) :
    (l.read (l.snapshotWord 0 levels)).2 = none := by
  have hcode : l.delayCode (l.snapshotWord 0 levels) = l.idleCode :=
    (l.delayCode_payload l.idleCode_lt hlevels).1
  rw [read, if_neg (not_not_intro hcode)]
  split <;> rfl

theorem misread_of_code (h : l.idleCode ≤ l.idleOffset) :
    l.Misread [{ time := l.tick * l.shortestIdle, levels := 1 }] 0
      (l.gapWords l.shortestIdle 1) where
  recorded := by
    have hchanged : (Recorder.start l).levels ≠ some 1 := nofun
    have htaken : ∃ r, (Recorder.start l).announce (l.tick * l.shortestIdle) 1 = .ok r ∧
        r.written.toList = l.gapWords l.shortestIdle 1 :=
      ⟨_, Recorder.announce_of_unitsUntil l.maxPayload_pos hchanged
        (unitsUntil_start (Nat.succ_pos _) (.inr (Nat.le_refl _))), Array.toList_appendList⟩
    obtain ⟨r, hok, hwritten⟩ := htaken
    refine ⟨r, Recorder.announceAll_cons.mpr ⟨r, hok, rfl⟩, ?_⟩
    rw [Recorder.endAt_of_not_later (Nat.zero_le _), hwritten]
  within := by
    refine ⟨fun s hs => ?_, Nat.zero_le _⟩
    rw [List.mem_singleton.mp hs]
    exact Nat.mul_le_mul_left _ (Nat.le_succ_of_le l.shortestIdle_le_longestIdle)
  two := congrArg List.length (gapWords_shortestIdle h 1)
  silent := by
    have hone : 1 < 2 ^ l.payloadBits := Nat.lt_of_le_of_lt l.idleLimit_pos l.idleLimit_lt
    rw [gapWords_shortestIdle h]
    simp [l.read_idleWord (Nat.le_refl _) l.shortestIdle_le_longestIdle,
      read_snapshotWord_zero hone]
  differs := by
    -- All lines stay low, but one was announced to be high.
    intro hsame
    have hlevels := congrArg (List.map Sample.levels) hsame
    simp only [heldUntil, changes] at hlevels
    split at hlevels <;> simp at hlevels

/-! A pause one unit longer than the longest idle word begins with a step too short for one,
which reads as the longest. -/

theorem tailWords_long (h : l.idleLimit ≤ l.idleOffset) (levels : Nat) :
    l.tailWords (l.longestIdle + 1) levels =
      [l.idleWord l.idleLimit, l.idleWord l.shortestIdle] := by
  have hlimit := l.idleLimit_pos
  have hshort : l.shortestIdle = l.idleOffset + 1 := rfl
  have hlong : l.longestIdle = l.idleLimit + l.idleOffset := rfl
  have hstep : l.idleStep (l.longestIdle + 1) = l.idleLimit := by
    rw [idleStep, if_neg (by omega), if_pos (by omega)]
    omega
  have hrest : l.longestIdle + 1 - l.idleLimit = l.shortestIdle := by omega
  rw [tailWords, if_pos (by omega), idleWords, idleSteps, dif_pos (Nat.succ_pos _), hstep,
    hrest, idleSteps_shortestIdle]
  rfl

theorem read_idleWord_idleLimit (hcode : l.idleOffset < l.idleCode)
    (h : l.idleLimit ≤ l.idleOffset) :
    l.read (l.idleWord l.idleLimit) = (l.longestIdle, none) := by
  have hroom := l.idleCode_lt_maxPayload
  have hmax : l.maxPayload = 2 ^ l.payloadBits - 1 := rfl
  have hoffset : l.longestIdle - l.idleLimit = l.idleOffset := Nat.add_sub_cancel_left ..
  have hfits : l.longestIdle - l.idleLimit < 2 ^ l.payloadBits := by omega
  obtain ⟨hdelay, hpayload⟩ := l.delayCode_payload l.idleCode_lt hfits
  have hdelay' : l.delayCode (l.idleWord l.idleLimit) = l.idleCode := hdelay
  have hpayload' : l.payload (l.idleWord l.idleLimit) = l.idleOffset := hpayload.trans hoffset
  rw [read, if_neg (not_not_intro hdelay'), hpayload', if_neg (Nat.not_lt.mpr h)]

theorem misread_of_limit (hcode : l.idleOffset < l.idleCode) (h : l.idleLimit ≤ l.idleOffset) :
    l.Misread [] (l.tick * (l.longestIdle + 1)) (l.tailWords (l.longestIdle + 1) 0) := by
  have hlong : l.longestIdle = l.idleLimit + l.idleOffset := rfl
  have hshort : l.shortestIdle = l.idleOffset + 1 := rfl
  have hlimit := l.idleLimit_pos
  have hfirst := read_idleWord_idleLimit hcode h
  have hsecond := l.read_idleWord (Nat.le_refl _) l.shortestIdle_le_longestIdle
  refine ⟨⟨Recorder.start l, rfl, ?_⟩, ?_, ?_, ?_, ?_⟩
  · exact Recorder.endAt_of_unitsUntil (Nat.mul_pos l.tick_pos (Nat.succ_pos _))
      (unitsUntil_start (Nat.succ_pos _) (.inr (by omega)))
  · exact ⟨nofun, Nat.le_refl _⟩
  · exact congrArg List.length (tailWords_long h 0)
  · rw [tailWords_long h]
    simp [hfirst, hsecond]
  · -- The words last longer than the pause.
    have hticks : l.ticks (l.tailWords (l.longestIdle + 1) 0) =
        l.tick * (l.longestIdle + l.shortestIdle) := by
      rw [tailWords_long h, ticks_eq]
      simp [hfirst, hsecond]
    intro hsame
    rw [hticks, changes, heldUntil_nil (Nat.mul_pos l.tick_pos (by omega)),
      heldUntil_nil (Nat.mul_pos l.tick_pos (Nat.succ_pos _))] at hsame
    have hunits :=
      Nat.eq_of_mul_eq_mul_left l.tick_pos (congrArg Sample.time (List.cons.inj hsame).1)
    omega

theorem exists_misread (h : ¬l.Faithful) :
    ∃ samples stop words, l.Misread samples stop words := by
  by_cases hcode : l.idleOffset < l.idleCode
  · exact ⟨_, _, _, misread_of_limit hcode (Nat.not_lt.mp fun hlimit => h ⟨hcode, hlimit⟩)⟩
  · exact ⟨_, _, _, misread_of_code (Nat.not_lt.mp hcode)⟩

/-- Recordings read back in just the layouts whose idle words add fewer units than their code
and than their limit. In every other one there is a recording, of times within the range of the
clock and with an end within it, that shows something else, although every vector and the end
were taken. -/
theorem readsBack_iff (l : Layout) (hroom : l.tick * (2 * (l.longestIdle + 1)) < 2 ^ 64) :
    (l.ReadsBack ↔ l.idleOffset < l.idleCode ∧ l.idleOffset < l.idleLimit) ∧
    (¬(l.idleOffset < l.idleCode ∧ l.idleOffset < l.idleLimit) →
      ∃ samples stop words, (∀ s ∈ samples, s.time < 2 ^ 64) ∧ stop < 2 ^ 64 ∧
        l.Recorded samples stop words ∧ ((Replay.start l).words words).2.time < 2 ^ 64 ∧
        (Replay.start l).samplesOfWords words ≠ heldUntil (changes none samples) stop) := by
  have hlost (h : ¬(l.idleOffset < l.idleCode ∧ l.idleOffset < l.idleLimit)) :
      ∃ samples stop words, (∀ s ∈ samples, s.time < 2 ^ 64) ∧ stop < 2 ^ 64 ∧
        l.Recorded samples stop words ∧ ((Replay.start l).words words).2.time < 2 ^ 64 ∧
        (Replay.start l).samplesOfWords words ≠ heldUntil (changes none samples) stop := by
    obtain ⟨samples, stop, words, hwords⟩ := exists_misread fun hl => h ⟨hl.1, hl.2⟩
    have hhalf : l.tick * (l.longestIdle + 1) < 2 ^ 64 :=
      Nat.lt_of_le_of_lt (Nat.mul_le_mul_left _ (by omega)) hroom
    refine ⟨samples, stop, words, fun s hs => Nat.lt_of_le_of_lt (hwords.within.1 s hs) hhalf,
      Nat.lt_of_le_of_lt hwords.within.2 hhalf, hwords.recorded, ?_, ?_⟩
    · have hticks := ticks_le_of_silent hwords.silent
      rw [hwords.two] at hticks
      rw [((Replay.start l).moved_words words).time]
      have hle : l.tick * (2 * l.longestIdle) ≤ l.tick * (2 * (l.longestIdle + 1)) :=
        Nat.mul_le_mul_left _ (by omega)
      exact Nat.lt_of_le_of_lt (Nat.zero_add _ ▸ Nat.le_trans hticks hle) hroom
    · rw [samplesOfWords_of_silent hwords.silent]
      exact hwords.differs
  refine ⟨⟨fun hback => Decidable.byContradiction fun h => ?_, fun h => ?_⟩, hlost⟩
  · obtain ⟨samples, stop, words, htimes, hstop, hrecorded, -, hdiffers⟩ := hlost h
    exact hdiffers (hback samples stop words htimes hstop hrecorded)
  · rintro samples stop words - - ⟨r, hok, hend⟩
    exact Recorder.samplesOfWords_announceAll ⟨h.1, h.2⟩ hok hend

/-- The layout of the hardware reads back; it would not with an offset as large as its code for
idle words. -/
theorem readsBack_iff_standard :
    let wide : Layout := { standard with idleOffset := 31 }
    standard.ReadsBack ∧ wide.tick * (2 * (wide.longestIdle + 1)) < 2 ^ 64 ∧ ¬wide.ReadsBack ∧
      ¬(wide.idleOffset < wide.idleCode ∧ wide.idleOffset < wide.idleLimit) ∧
      ∃ samples stop words, wide.Recorded samples stop words ∧
        (Replay.start wide).samplesOfWords words ≠ heldUntil (changes none samples) stop := by
  intro wide
  have hroom : wide.tick * (2 * (wide.longestIdle + 1)) < 2 ^ 64 := by decide
  have hwide :
      ¬(wide.idleOffset < wide.idleCode ∧ wide.idleOffset < wide.idleLimit) := by decide
  obtain ⟨hiff, hlost⟩ := readsBack_iff wide hroom
  obtain ⟨samples, stop, words, -, -, hrecorded, -, hdiffers⟩ := hlost hwide
  exact ⟨(readsBack_iff standard (by decide)).1.mpr (by decide), hroom,
    fun h => hwide (hiff.mp h), hwide, samples, stop, words, hrecorded, hdiffers⟩

end Layout

end AtaCapture
