import Mathlib.Data.List.Chain
import AtaCapture.Proofs.Word.Truncation

/-!
The waveform of a capture. Every word moves the clock, so what a replay gives is in strict
order of time, and a vector that holds already is not given again, except to mark an end. This
stays so however words, pieces of bytes and ends follow one another, until the replay starts
again. Once a capture is over, its samples hold at every time the levels that its words have
announced by then.
-/

namespace AtaCapture

namespace Layout

theorem delayCode_le_idleCode (l : Layout) (w : Word) : l.delayCode w ≤ l.idleCode := by
  have hpos := Nat.two_pow_pos l.delayBits
  have hword : w.toNat < 2 ^ l.delayBits * 2 ^ l.payloadBits := by
    rw [← Nat.pow_add, l.fill]
    exact w.isLt
  have hcode : l.delayCode w < 2 ^ l.delayBits :=
    Nat.div_lt_of_lt_mul (Nat.mul_comm _ _ ▸ hword)
  rw [idleCode]
  omega

theorem units_pos (l : Layout) (w : Word) : 0 < (l.read w).1 := by
  have hcode := l.delayCode_le_idleCode w
  have hlimit := l.idleLimit_pos
  have hlong : l.longestIdle = l.idleLimit + l.idleOffset := rfl
  simp only [read]
  split
  · dsimp only
    omega
  · split <;> dsimp only <;> omega

theorem duration_pos (l : Layout) (w : Word) : 0 < l.duration w :=
  Nat.mul_pos l.tick_pos (l.units_pos w)

theorem ticks_eq (l : Layout) (words : List Word) :
    l.ticks words = l.tick * (words.map fun w => (l.read w).1).foldr (· + ·) 0 := by
  rw [ticks_of_map_read rfl, List.map_map]
  rfl

end Layout

/-! ### Levels over time -/

namespace Sample

/-- The levels that some samples hold at a time, those of the last one that is not later.
Before the first one all lines are low. -/
def levelsAt (samples : List Sample) (time : Nat) : Nat :=
  (lastLevels none (samples.filter (·.time ≤ time))).getD 0

/-- Samples in order that are not later than a time come before those that are. -/
theorem filter_append_filter {samples : List Sample} (h : samples.Pairwise (·.time ≤ ·.time))
    (time : Nat) :
    samples.filter (·.time ≤ time) ++ samples.filter (time < ·.time) = samples := by
  induction samples with
  | nil => rfl
  | cons s samples ih =>
      obtain ⟨hfirst, hrest⟩ := List.pairwise_cons.mp h
      by_cases hs : s.time ≤ time
      · simpa [hs, Nat.not_lt.mpr hs] using ih hrest
      · have hlater : ∀ t ∈ samples, time < t.time := fun t ht =>
          Nat.lt_of_lt_of_le (Nat.not_le.mp hs) (hfirst t ht)
        have hkept : samples.filter (time < ·.time) = samples :=
          List.filter_eq_self.mpr (by simpa using hlater)
        have hdropped : samples.filter (·.time ≤ time) = [] :=
          List.filter_eq_nil_iff.mpr (by simpa using hlater)
        simp [hs, Nat.not_le.mp hs, hkept, hdropped]

/-- The changes alone hold the same levels at every time. -/
theorem levelsAt_changes {samples : List Sample} (h : samples.Pairwise (·.time ≤ ·.time))
    (time : Nat) : levelsAt (changes none samples) time = levelsAt samples time := by
  have hparts : changes none samples = changes none (samples.filter (·.time ≤ time)) ++
      changes (lastLevels none (samples.filter (·.time ≤ time)))
        (samples.filter (time < ·.time)) := by
    rw [← changes_append, filter_append_filter h]
  have hearly : (changes none (samples.filter (·.time ≤ time))).filter (·.time ≤ time) =
      changes none (samples.filter (·.time ≤ time)) :=
    List.filter_eq_self.mpr fun s hs => (List.mem_filter.mp ((sublist_changes ..).subset hs)).2
  have hlate (levels : Option Nat) :
      (changes levels (samples.filter (time < ·.time))).filter (·.time ≤ time) = [] := by
    refine List.filter_eq_nil_iff.mpr fun s hs => ?_
    have hlater := (List.mem_filter.mp ((sublist_changes ..).subset hs)).2
    simpa using hlater
  rw [levelsAt, hparts, List.filter_append, hearly, hlate, List.append_nil, lastLevels_changes,
    levelsAt]

theorem levelsAt_heldUntil {samples : List Sample} {stop : Nat}
    (h : ∀ s ∈ samples, s.time ≤ stop)
    (time : Nat) : levelsAt (heldUntil samples stop) time = levelsAt samples time := by
  rw [heldUntil]
  split
  · by_cases hstop : stop ≤ time
    · have hall : samples.filter (·.time ≤ time) = samples :=
        List.filter_eq_self.mpr (by simpa using fun s hs => Nat.le_trans (h s hs) hstop)
      rw [levelsAt, levelsAt, List.filter_append, hall, lastLevels_append]
      cases hlast : samples.getLast? <;> simp [hstop, lastLevels, hlast]
    · rw [levelsAt, levelsAt, List.filter_append,
        List.filter_cons_of_neg (by simpa using hstop), List.filter_nil, List.append_nil]
  · rfl

/-- Samples that are made to last end where they should, if they do not go on after that. -/
theorem time_last_heldUntil {samples : List Sample} {stop : Nat}
    (h : ∀ s ∈ samples, s.time ≤ stop)
    (hpos : 0 < stop) : (heldUntil samples stop).getLast?.map Sample.time = some stop := by
  rw [heldUntil]
  cases hlast : samples.getLast? with
  | none => simp [hpos]
  | some s =>
      have hle := h s (List.mem_of_getLast? hlast)
      simp only [Option.getD_some]
      split
      · simp
      · rw [hlast, Option.map_some, Option.some.injEq]
        omega

end Sample

/-! ### Words, pieces and ends in any order -/

namespace Replay

inductive Call where
  | word (w : Word)
  | chunk (bytes : List UInt8)
  | close
  | restart
  deriving DecidableEq, Repr

/-- A sample that a replay gave, and whether it marks the end of the capture. -/
structure Given where
  sample : Sample
  closing : Bool
  deriving DecidableEq, Repr

/-- A replay and all that it has given since it was started. -/
structure Playback where
  replay : Replay
  given : List Given := []
  deriving DecidableEq, Repr

namespace Playback

def start (l : Layout) : Playback := { replay := .start l }

def samples (p : Playback) : List Sample := p.given.map Given.sample

def give (p : Playback) (samples : List Sample) (closing : Bool) (replay : Replay) :
    Playback where
  replay := replay
  given := p.given ++ samples.map fun sample => { sample, closing }

def call (p : Playback) : Call → Playback
  | .word w => p.give (p.replay.word w).1.toList false (p.replay.word w).2
  | .chunk bytes => p.give (p.replay.chunk bytes).1 false (p.replay.chunk bytes).2
  | .close => p.give p.replay.close.1.toList true p.replay.close.2
  | .restart => { replay := p.replay.restart }

def callAll (p : Playback) (calls : List Call) : Playback := calls.foldl call p

/-- What was given is in order of time and changes from sample to sample, and the replay
remembers the last of it. -/
structure Orderly (p : Playback) : Prop where
  increasing : p.given.Pairwise (·.sample.time < ·.sample.time)
  changing : p.given.IsChain fun g h => g.sample.levels = h.sample.levels → h.closing
  sound : ∀ g ∈ p.given, p.replay.layout.tick ∣ g.sample.time ∧
    g.sample.levels ≤ p.replay.layout.maxPayload
  latest : p.replay.latest = p.given.getLast?.map Given.sample
  bounded : ∀ g ∈ p.given, g.sample.time ≤ (p.replay.latest.map Sample.time).getD 0
  reached : (p.replay.latest.map Sample.time).getD 0 ≤ p.replay.time
  clock : p.replay.layout.tick ∣ p.replay.time
  fits : p.replay.levels ≤ p.replay.layout.maxPayload

theorem orderly_start (l : Layout) : (start l).Orderly where
  increasing := .nil
  changing := .nil
  sound := by simp [start]
  latest := rfl
  bounded := by simp [start]
  reached := Nat.zero_le _
  clock := Nat.dvd_zero _
  fits := Nat.zero_le _

variable {p : Playback} {r : Replay}

/-- The clock may go on and the levels may change without a sample. -/
theorem Orderly.keep (hp : p.Orderly) (hlayout : r.layout = p.replay.layout)
    (hlatest : r.latest = p.replay.latest) (htime : p.replay.time ≤ r.time)
    (hclock : p.replay.layout.tick ∣ r.time) (hfits : r.levels ≤ p.replay.layout.maxPayload)
    (closing : Bool) : (p.give [] closing r).Orderly := by
  have hgiven : p.give [] closing r = { replay := r, given := p.given } := by simp [give]
  rw [hgiven]
  exact {
    increasing := hp.increasing
    changing := hp.changing
    sound := hlayout ▸ hp.sound
    latest := hlatest.trans hp.latest
    bounded := hlatest ▸ hp.bounded
    reached := hlatest ▸ Nat.le_trans hp.reached htime
    clock := hlayout ▸ hclock
    fits := hlayout ▸ hfits }

/-- A sample that the replay gives now is later than the others. It has to differ from the one
before it, unless it marks the end. -/
theorem Orderly.sample (hp : p.Orderly) (hlayout : r.layout = p.replay.layout)
    (hlatest : r.latest = some { time := r.time, levels := r.levels })
    (hlater : (p.replay.latest.map Sample.time).getD 0 < r.time)
    (hclock : p.replay.layout.tick ∣ r.time) (hfits : r.levels ≤ p.replay.layout.maxPayload)
    {closing : Bool} (hchanged : p.replay.latest.map Sample.levels = some r.levels → closing) :
    (p.give [{ time := r.time, levels := r.levels }] closing r).Orderly where
  increasing := by
    refine List.pairwise_append.mpr ⟨hp.increasing, List.pairwise_singleton .., ?_⟩
    intro g hg h hh
    rw [List.mem_singleton.mp hh]
    exact Nat.lt_of_le_of_lt (hp.bounded g hg) hlater
  changing := by
    refine List.isChain_append.mpr ⟨hp.changing, .singleton _, ?_⟩
    intro g hg h hh hsame
    obtain rfl := Option.some.inj hh
    refine hchanged ?_
    rw [hp.latest, Option.mem_def.mp hg]
    exact congrArg some hsame
  sound := by
    intro g hg
    rcases List.mem_append.mp hg with hg | hg
    · exact hlayout ▸ hp.sound g hg
    · rw [List.mem_singleton.mp hg]
      exact hlayout ▸ ⟨hclock, hfits⟩
  latest := by
    simp [give, hlatest]
  bounded := by
    intro g hg
    have hle : g.sample.time ≤ r.time := by
      rcases List.mem_append.mp hg with hg | hg
      · exact Nat.le_of_lt (Nat.lt_of_le_of_lt (hp.bounded g hg) hlater)
      · rw [List.mem_singleton.mp hg]
    simpa [give, hlatest] using hle
  reached := by simp [give, hlatest]
  clock := hlayout ▸ hclock
  fits := hlayout ▸ hfits

theorem Orderly.word (hp : p.Orderly) (w : Word) : (p.call (.word w)).Orderly := by
  have hmoves := p.replay.layout.duration_pos w
  have hclock : p.replay.layout.tick ∣ p.replay.time + p.replay.layout.duration w :=
    Nat.dvd_add hp.clock (Nat.dvd_mul_right ..)
  have hlater : (p.replay.latest.map Sample.time).getD 0 <
      p.replay.time + p.replay.layout.duration w := by
    have hreached := hp.reached
    omega
  simp only [call, Replay.word]
  cases hread : (p.replay.layout.read w).2 with
  | none =>
      refine hp.keep ?_ ?_ ?_ ?_ ?_ false
      exacts [rfl, rfl, Nat.le_add_right .., hclock, hp.fits]
  | some levels =>
      have hfits := Layout.levels_le_of_read hread
      dsimp only
      split
      · refine hp.keep ?_ ?_ ?_ ?_ ?_ false
        exacts [rfl, rfl, Nat.le_add_right .., hclock, hfits]
      · rename_i hdiffers
        refine hp.sample ?_ ?_ ?_ ?_ ?_ ?_
        exacts [rfl, rfl, hlater, hclock, hfits, fun hsame => absurd hsame hdiffers]

theorem callAll_word (p : Playback) (words : List Word) :
    p.callAll (words.map .word) = p.give (p.replay.words words).1 false
      (p.replay.words words).2 := by
  induction words generalizing p with
  | nil => simp [callAll, give, Replay.words]
  | cons w words ih =>
      have hcons : p.callAll ((w :: words).map .word) =
          (p.call (.word w)).callAll (words.map .word) := rfl
      rw [hcons, ih]
      simp [call, give, Replay.words]

theorem Orderly.words (hp : p.Orderly) (words : List Word) :
    (p.callAll (words.map .word)).Orderly := by
  induction words generalizing p with
  | nil => exact hp
  | cons w words ih => exact ih (hp.word w)

theorem Orderly.chunk (hp : p.Orderly) (bytes : List UInt8) :
    (p.call (.chunk bytes)).Orderly := by
  have h := hp.words (Word.cut (p.replay.carry ++ bytes)).1
  rw [callAll_word] at h
  -- The bytes carried over are the only difference.
  exact { h with }

theorem Orderly.close (hp : p.Orderly) : (p.call .close).Orderly := by
  simp only [call, Replay.close]
  split
  · rename_i hlater
    refine hp.sample ?_ ?_ ?_ ?_ ?_ ?_
    exacts [rfl, rfl, hlater, hp.clock, hp.fits, fun _ => rfl]
  · refine hp.keep ?_ ?_ ?_ ?_ ?_ true
    exacts [rfl, rfl, Nat.le_refl _, hp.clock, hp.fits]

theorem Orderly.call (hp : p.Orderly) (c : Call) : (p.call c).Orderly := by
  cases c with
  | word w => exact hp.word w
  | chunk bytes => exact hp.chunk bytes
  | close => exact hp.close
  | restart => exact orderly_start p.replay.layout

theorem Orderly.callAll (hp : p.Orderly) (calls : List Call) : (p.callAll calls).Orderly := by
  induction calls generalizing p with
  | nil => exact hp
  | cons c calls ih => exact ih (hp.call c)

theorem layout_call (p : Playback) (c : Call) :
    (p.call c).replay.layout = p.replay.layout := by
  cases c with
  | word w => exact (p.replay.moved_word w).layout
  | chunk bytes => exact (p.replay.moved_words (Word.cut (p.replay.carry ++ bytes)).1).layout
  | close =>
      simp only [Playback.call, give, Replay.close]
      split <;> rfl
  | restart => rfl

theorem layout_callAll (p : Playback) (calls : List Call) :
    (p.callAll calls).replay.layout = p.replay.layout := by
  induction calls generalizing p with
  | nil => rfl
  | cons c calls ih => exact (ih (p.call c)).trans (p.layout_call c)

/-- A capture that is played word by word and then closed is played as a whole. -/
theorem samples_callAll_word_close (l : Layout) (words : List Word) :
    ((start l).callAll (words.map .word ++ [.close])).samples =
      (Replay.start l).samplesOfWords words := by
  have hwords := (start l).callAll_word words
  simp only [Playback.callAll] at hwords
  simp only [Playback.callAll, List.foldl_append, hwords, List.foldl_cons, List.foldl_nil]
  simp [Playback.call, give, samples, start, samplesOfWords, Function.comp_def]

/-- Whatever a replay is asked for, the samples it has given since it was started come one
after the other, each on a tick and no wider than the payload, and only one that marks an end
repeats the levels before it. A capture that is played and closed holds at every time the
levels of the last snapshot among its words that is not later, and lasts as long as all of its
words. -/
theorem changes_of_capture (l : Layout) :
    (∀ calls : List Call,
      let given := ((start l).callAll calls).given
      given.Pairwise (·.sample.time < ·.sample.time) ∧
      (∀ g ∈ given, l.tick ∣ g.sample.time ∧ g.sample.levels ≤ l.maxPayload) ∧
      given.IsChain fun g h => g.sample.levels = h.sample.levels → h.closing) ∧
    ∀ words : List Word,
      let samples := ((start l).callAll (words.map .word ++ [.close])).samples
      (∀ time, Sample.levelsAt samples time = Sample.levelsAt (l.snapshots 0 words) time) ∧
      (words ≠ [] → samples.getLast?.map Sample.time =
        some (l.tick * (words.map fun w => (l.read w).1).foldr (· + ·) 0)) := by
  refine ⟨fun calls => ?_, fun words => ?_⟩
  · have h := (orderly_start l).callAll calls
    have hlayout : ((start l).callAll calls).replay.layout = l := layout_callAll ..
    have hsound := h.sound
    rw [hlayout] at hsound
    exact ⟨h.increasing, hsound, h.changing⟩
  · have hordered := l.pairwise_snapshots 0 words
    have hstop : ∀ s ∈ Sample.changes none (l.snapshots 0 words), s.time ≤ l.ticks words := by
      intro s hs
      have htime := (Layout.time_of_mem_snapshots ((Sample.sublist_changes ..).subset hs)).2
      rwa [Nat.zero_add] at htime
    rw [samples_callAll_word_close, samplesOfWords_start]
    refine ⟨fun time => ?_, fun hwords => ?_⟩
    · rw [Sample.levelsAt_heldUntil hstop, Sample.levelsAt_changes hordered]
    · rw [← Layout.ticks_eq]
      refine Sample.time_last_heldUntil hstop ?_
      obtain ⟨w, rest, rfl⟩ := List.exists_cons_of_ne_nil hwords
      exact Nat.lt_of_lt_of_le (l.duration_pos w) (Nat.le_add_right ..)

/-- A replay that is started again and closed twice. The first end comes with a sample and
drops half a word; the second comes later and repeats the levels, and a word that repeats them
then gives nothing. -/
theorem changes_of_capture_closed_twice :
    let calls : List Call := [.word 0xF0000001, .restart, .chunk [0x07, 0, 0],
      .chunk [0xF0, 0xFE, 0xFF], .close, .word 0xF807FFFE, .close, .word 0xF0000007,
      .word 0xE8000002]
    let given := ((start .standard).callAll calls).given
    let words : List Word := [0xF0000007, 0xF807FFFE]
    let samples := ((start .standard).callAll (words.map .word ++ [.close])).samples
    given = [⟨⟨5, 7⟩, false⟩, ⟨⟨25, 7⟩, true⟩, ⟨⟨40, 2⟩, false⟩] ∧
      given.Pairwise (·.sample.time < ·.sample.time) ∧
      (⟨⟨40, 2⟩, false⟩ ∈ given ∧ 5 ∣ 40 ∧ 2 ≤ Layout.standard.maxPayload) ∧
      (given.IsChain fun g h => g.sample.levels = h.sample.levels → h.closing) ∧
      Sample.levelsAt samples 24 = 7 ∧
      words ≠ [] ∧ samples.getLast?.map Sample.time = some 25 := by
  intro calls given words samples
  obtain ⟨hcalls, hwords⟩ := changes_of_capture .standard
  obtain ⟨hincreasing, hsound, hchanging⟩ := hcalls calls
  have hgiven : ⟨⟨40, 2⟩, false⟩ ∈ given := by decide +kernel
  have hne : words ≠ [] := by decide
  refine ⟨by decide +kernel, hincreasing, ⟨hgiven, hsound _ hgiven⟩, hchanging, ?_, hne, ?_⟩
  · exact ((hwords words).1 24).trans (by decide +kernel)
  · exact ((hwords words).2 hne).trans (by decide +kernel)

end Playback

end Replay

end AtaCapture
