import AtaCapture.Proofs.Word.Pauses
import AtaCapture.Word.Replay

/-!
What capture words say, apart from the machine that replays them. Words cover ticks and hold
snapshots, each at the time the words have reached with it; of these a reader keeps the
changes, and holds the last vector until the words end. A replay from the start of a capture
gives just that.
-/

namespace AtaCapture

namespace Layout

def ticks (l : Layout) : List Word → Nat
  | [] => 0
  | w :: words => l.duration w + l.ticks words

/-- The snapshots among words that follow `time`, each at the time reached with it. -/
def snapshots (l : Layout) (time : Nat) : List Word → List Sample
  | [] => []
  | w :: words =>
    ((l.read w).2.map fun levels => { time := time + l.duration w, levels }).toList ++
      l.snapshots (time + l.duration w) words

end Layout

namespace Sample

/-- The samples whose levels differ from those before them, `levels` being known already. -/
def changes (levels : Option Nat) : List Sample → List Sample
  | [] => []
  | s :: rest =>
    if levels = some s.levels then changes levels rest else s :: changes (some s.levels) rest

def lastLevels (levels : Option Nat) (samples : List Sample) : Option Nat :=
  (samples.getLast?.map Sample.levels).or levels

/-- The samples made to last until `stop`. If they end before, the last one is repeated there;
before the first sample all lines are low. -/
def heldUntil (samples : List Sample) (stop : Nat) : List Sample :=
  let last := samples.getLast?.getD { time := 0, levels := 0 }
  if last.time < stop then samples ++ [{ last with time := stop }] else samples

end Sample

/-! ### Words in a row -/

namespace Layout

variable (l : Layout)

@[simp] theorem ticks_nil : l.ticks [] = 0 := rfl

@[simp] theorem ticks_cons (w : Word) (words : List Word) :
    l.ticks (w :: words) = l.duration w + l.ticks words := rfl

@[simp] theorem ticks_append (a b : List Word) : l.ticks (a ++ b) = l.ticks a + l.ticks b := by
  induction a with
  | nil => rw [List.nil_append, ticks_nil, Nat.zero_add]
  | cons w a ih => rw [List.cons_append, ticks_cons, ticks_cons, ih, Nat.add_assoc]

theorem tick_dvd_ticks (words : List Word) : l.tick ∣ l.ticks words := by
  induction words with
  | nil => exact Nat.dvd_zero _
  | cons w words ih => exact Nat.dvd_add (Nat.dvd_mul_right ..) ih

@[simp] theorem snapshots_nil (time : Nat) : l.snapshots time [] = [] := rfl

theorem snapshots_append (time : Nat) (a b : List Word) :
    l.snapshots time (a ++ b) = l.snapshots time a ++ l.snapshots (time + l.ticks a) b := by
  induction a generalizing time with
  | nil => rfl
  | cons w a ih => simp only [List.cons_append, snapshots, ih, List.append_assoc, ticks_cons,
      Nat.add_assoc]

variable {l} {units : Nat}

theorem ticks_of_map_read {words : List Word} {reads : List (Nat × Option Nat)}
    (h : words.map l.read = reads) :
    l.ticks words = l.tick * (reads.map Prod.fst).foldr (· + ·) 0 := by
  subst h
  induction words with
  | nil => rfl
  | cons w words ih =>
      rw [ticks_cons, ih, List.map_cons, List.map_cons, List.foldr_cons, Nat.mul_add, duration]

theorem ticks_idleWords (hlimit : l.idleOffset < l.idleLimit)
    (h : units = 0 ∨ l.shortestIdle ≤ units) : l.ticks (l.idleWords units) =
      l.tick * units := by
  have hsteps :
      ((l.idleSteps units).map fun step => (step, (none : Option Nat))).map Prod.fst =
      l.idleSteps units := by
    rw [List.map_map]
    exact List.map_id _
  rw [ticks_of_map_read (map_read_idleWords hlimit h), hsteps, l.sum_idleSteps]

theorem snapshots_eq_nil {words : List Word} (h : ∀ w ∈ words, (l.read w).2 = none)
    (time : Nat) :
    l.snapshots time words = [] := by
  induction words generalizing time with
  | nil => rfl
  | cons w words ih =>
      simp only [snapshots, h w List.mem_cons_self, Option.map_none, Option.toList_none,
        List.nil_append]
      exact ih (fun v hv => h v (List.mem_cons_of_mem w hv)) _

theorem snapshots_idleWords (hlimit : l.idleOffset < l.idleLimit)
    (h : units = 0 ∨ l.shortestIdle ≤ units) (time : Nat) :
    l.snapshots time (l.idleWords units) = [] := by
  refine snapshots_eq_nil (fun w hw => ?_) time
  have hread : l.read w ∈ (l.idleSteps units).map fun step => (step, none) := by
    rw [← map_read_idleWords hlimit h]
    exact List.mem_map_of_mem hw
  obtain ⟨step, -, hstep⟩ := List.mem_map.mp hread
  rw [← hstep]

/-! A gap and a tail cover exactly the units they were made for. -/

variable {levels : Nat}

theorem ticks_snapshotWord (hpos : 0 < units) (hunits : units ≤ l.idleCode)
    (hlevels : levels ≤ l.maxPayload) : l.duration (l.snapshotWord units levels) =
      l.tick * units := by
  rw [duration, l.read_snapshotWord hpos hunits hlevels]

theorem snapshots_snapshotWord (hpos : 0 < units) (hunits : units ≤ l.idleCode)
    (hlevels : levels ≤ l.maxPayload) (time : Nat) :
    l.snapshots time [l.snapshotWord units levels] =
      [{ time := time + l.tick * units, levels }] := by
  simp [snapshots, duration, l.read_snapshotWord hpos hunits hlevels]

theorem ticks_gapWords (hl : l.Faithful) (hpos : 0 < units) (hlevels : levels ≤ l.maxPayload) :
    l.ticks (l.gapWords units levels) = l.tick * units := by
  have hlast :=
    ticks_snapshotWord (lastUnits_pos hl hpos) (l.lastUnits_le_idleCode units) hlevels
  have hle := l.lastUnits_le units
  rw [gapWords, ticks_append, ticks_idleWords hl.offset_lt_limit (rest_of_lastUnits hl units),
    ticks_cons, hlast, ticks_nil, Nat.add_zero, ← Nat.mul_add, Nat.sub_add_cancel hle]

theorem snapshots_gapWords (hl : l.Faithful) (hpos : 0 < units)
    (hlevels : levels ≤ l.maxPayload) (time : Nat) :
    l.snapshots time (l.gapWords units levels) =
      [{ time := time + l.tick * units, levels }] := by
  have hrest := rest_of_lastUnits hl units
  have hle := l.lastUnits_le units
  rw [gapWords, snapshots_append, snapshots_idleWords hl.offset_lt_limit hrest,
    ticks_idleWords hl.offset_lt_limit hrest, List.nil_append,
    snapshots_snapshotWord (lastUnits_pos hl hpos) (l.lastUnits_le_idleCode units) hlevels,
    Nat.add_assoc, ← Nat.mul_add, Nat.sub_add_cancel hle]

theorem ticks_tailWords (hl : l.Faithful) (hpos : 0 < units)
    (hlevels : levels ≤ l.maxPayload) :
    l.ticks (l.tailWords units levels) = l.tick * units := by
  have hcode := hl.offset_lt_code
  have hshort : l.shortestIdle = l.idleOffset + 1 := rfl
  simp only [tailWords]
  split
  · exact ticks_idleWords hl.offset_lt_limit (.inr ‹_›)
  · rw [ticks_cons, ticks_snapshotWord hpos (by omega) hlevels, ticks_nil, Nat.add_zero]

theorem snapshots_tailWords (hl : l.Faithful) (hpos : 0 < units)
    (hlevels : levels ≤ l.maxPayload) (time : Nat) :
    l.snapshots time (l.tailWords units levels) = [] ∨
      l.snapshots time (l.tailWords units levels) =
        [{ time := time + l.tick * units, levels }] := by
  have hcode := hl.offset_lt_code
  have hshort : l.shortestIdle = l.idleOffset + 1 := rfl
  simp only [tailWords]
  split
  · exact .inl (snapshots_idleWords hl.offset_lt_limit (.inr ‹_›) time)
  · exact .inr (snapshots_snapshotWord hpos (by omega) hlevels time)

theorem levels_le_of_read {w : Word} {levels : Nat} (h : (l.read w).2 = some levels) :
    levels ≤ l.maxPayload := by
  have hlt : l.payload w < 2 ^ l.payloadBits := Nat.mod_lt _ (Nat.two_pow_pos _)
  have hmax : l.maxPayload = 2 ^ l.payloadBits - 1 := rfl
  simp only [read] at h
  split at h
  · simp only [Option.some.injEq] at h
    omega
  · split at h <;> simp at h

theorem levels_le_of_mem_snapshots {words : List Word} {time : Nat} :
    ∀ s ∈ l.snapshots time words, s.levels ≤ l.maxPayload := by
  induction words generalizing time with
  | nil => simp
  | cons w words ih =>
      intro s hs
      rcases List.mem_append.mp hs with hs | hs
      · simp only [Option.mem_toList, Option.map_eq_some_iff] at hs
        obtain ⟨levels, hread, rfl⟩ := hs
        exact levels_le_of_read hread
      · exact ih s hs

end Layout

/-! ### Changes -/

namespace Sample

@[simp] theorem lastLevels_nil (levels : Option Nat) : lastLevels levels [] = levels := rfl

theorem lastLevels_append (levels : Option Nat) (a b : List Sample) :
    lastLevels levels (a ++ b) = lastLevels (lastLevels levels a) b := by
  simp [lastLevels, List.getLast?_append, Option.map_or, Option.or_assoc]

@[simp] theorem lastLevels_cons (levels : Option Nat) (s : Sample) (samples : List Sample) :
    lastLevels levels (s :: samples) = lastLevels (some s.levels) samples :=
  lastLevels_append levels [s] samples

theorem getD_lastLevels (levels : Option Nat) (samples : List Sample) (default : Nat) :
    (lastLevels levels samples).getD default =
      (lastLevels none samples).getD (levels.getD default) := by
  cases h : samples.getLast? <;> simp [lastLevels, h]

theorem changes_append (levels : Option Nat) (a b : List Sample) :
    changes levels (a ++ b) = changes levels a ++ changes (lastLevels levels a) b := by
  induction a generalizing levels with
  | nil => rfl
  | cons s a ih =>
      simp only [List.cons_append, changes, lastLevels_cons]
      split
      · rename_i hsame
        rw [ih, hsame]
      · rw [ih, List.cons_append]

theorem lastLevels_changes (levels : Option Nat) (samples : List Sample) :
    lastLevels levels (changes levels samples) = lastLevels levels samples := by
  induction samples generalizing levels with
  | nil => rfl
  | cons s samples ih =>
      simp only [changes, lastLevels_cons]
      split
      · rename_i hsame
        rw [ih, hsame]
      · rw [lastLevels_cons, ih]

end Sample

/-! ### Replaying -/

namespace Replay

open Sample

theorem words_append (r : Replay) (a b : List Word) :
    r.words (a ++ b) =
      ((r.words a).1 ++ ((r.words a).2.words b).1, ((r.words a).2.words b).2) := by
  induction a generalizing r with
  | nil => rfl
  | cons w a ih => simp only [List.cons_append, words, ih, List.append_assoc]

theorem count_words (r : Replay) (words : List Word) :
    (r.words words).2.count = r.count + words.length := by
  induction words generalizing r with
  | nil => rfl
  | cons w words ih =>
      have hword : (r.word w).2.count = r.count + 1 := by
        simp only [word]
        split
        · rfl
        · split <;> rfl
      rw [Replay.words, ih, hword, List.length_cons]
      omega

/-- What words do to a replay, and the samples they give. -/
structure Moved (r r' : Replay) (given : List Sample) (words : List Word) : Prop where
  layout : r'.layout = r.layout
  time : r'.time = r.time + r.layout.ticks words
  samples : given = changes (r.latest.map Sample.levels) (r.layout.snapshots r.time words)
  latest : r'.latest = given.getLast?.or r.latest
  levels : r'.levels = (lastLevels none (r.layout.snapshots r.time words)).getD r.levels
  shown : r'.latest.map Sample.levels =
    lastLevels (r.latest.map Sample.levels) (r.layout.snapshots r.time words)

theorem moved_word (r : Replay) (w : Word) :
    Moved r (r.word w).2 (r.word w).1.toList [w] := by
  simp only [word]
  cases hread : (r.layout.read w).2 with
  | none => constructor <;> simp [Layout.snapshots, hread, changes]
  | some levels =>
      dsimp only
      split
      · rename_i hsame
        constructor <;> simp [Layout.snapshots, hread, changes, hsame]
      · rename_i hdiffers
        constructor <;> simp [Layout.snapshots, hread, changes, hdiffers]

/-- Words in a row give the changes among their snapshots. -/
theorem moved_words (r : Replay) (words : List Word) :
    Moved r (r.words words).2 (r.words words).1 words := by
  induction words generalizing r with
  | nil => constructor <;> simp [Replay.words, changes]
  | cons w words ih =>
      have hw := r.moved_word w
      have hrest := ih (r.word w).2
      have hsplit (time : Nat) : r.layout.snapshots time (w :: words) =
          r.layout.snapshots time [w] ++ r.layout.snapshots
            (time + r.layout.ticks [w]) words :=
        r.layout.snapshots_append time [w] words
      obtain ⟨hlayout, htime, hsamples, hlatest, hlevels, hshown⟩ := hrest
      rw [hw.layout, hw.time] at htime hsamples hlevels hshown
      refine ⟨?_, ?_, ?_, ?_, ?_, ?_⟩
      all_goals simp only [Replay.words]
      · rw [hlayout, hw.layout]
      · rw [htime, Nat.add_assoc]
        simp
      · rw [hsplit, changes_append, ← hw.samples, ← hw.shown, ← hsamples]
      · rw [hlatest, hw.latest, List.getLast?_append, Option.or_assoc]
      · rw [hlevels, hw.levels, hsplit, lastLevels_append, ← getD_lastLevels]
      · rw [hshown, hw.shown, hsplit, lastLevels_append]

/-- The samples of words from the start of a capture are the changes among their snapshots,
held until the words end. -/
theorem samplesOfWords_start (l : Layout) (words : List Word) :
    (start l).samplesOfWords words = heldUntil (changes none (l.snapshots 0 words))
    (l.ticks words) := by
  have h := (start l).moved_words words
  have hsamples : ((start l).words words).1 = changes none (l.snapshots 0 words) := h.samples
  have htime : ((start l).words words).2.time = l.ticks words := by
    rw [h.time]
    exact Nat.zero_add _
  have hlatest : ((start l).words words).2.latest =
      (changes none (l.snapshots 0 words)).getLast? := by
    rw [h.latest, hsamples]
    exact Option.or_none
  have hlevels : ((start l).words words).2.levels =
      ((changes none (l.snapshots 0 words)).getLast?.map Sample.levels).getD 0 := by
    have hlast := lastLevels_changes none (l.snapshots 0 words)
    rw [lastLevels, Option.or_none] at hlast
    rw [hlast, h.levels]
    rfl
  simp only [samplesOfWords, close, hsamples, htime, hlatest, hlevels, heldUntil]
  cases (changes none (l.snapshots 0 words)).getLast? with
  | none => split <;> simp_all
  | some s => split <;> simp_all

end Replay

end AtaCapture
