import AtaCapture.Proofs.Ata.Occurrences

/-!
Levels of the bus. Of a sample the reconstruction sees its time and the levels of twenty-three
lines, wherever they are in the capture. A sample in which none of them changes makes no
difference; so two captures that show the same changes of these lines, and end at the same
time, are reconstructed alike, whatever the other lines do and whatever counts as a write to
the control mux.
-/

namespace AtaCapture.Ata

structure BusLevels where
  iow : Bool
  ior : Bool
  address : List Bool
  data : List Bool
  deriving DecidableEq, Repr

namespace Lines

def levels (l : Lines) (s : Sample) : BusLevels where
  iow := s.level l.iow
  ior := s.level l.ior
  address := l.address.map s.level
  data := l.data.map s.level

def view (l : Lines) (s : Sample) : Nat × BusLevels := (s.time, l.levels s)

/-- The samples without those that show the bus as the sample before them does; `before` is how
it was before the first one. -/
def distinctAfter (l : Lines) (before : BusLevels) : List Sample → List Sample
  | [] => []
  | s :: rest =>
    if l.levels s = before then l.distinctAfter (l.levels s) rest
    else s :: l.distinctAfter (l.levels s) rest

def distinct (l : Lines) : List Sample → List Sample
  | [] => []
  | s :: rest => s :: l.distinctAfter (l.levels s) rest

/-! ### What levels decide -/

section

variable {l₁ l₂ : Lines} {s₁ s₂ p₁ p₂ : Sample}

theorem level_iow (h : l₁.levels s₁ = l₂.levels s₂) : s₁.level l₁.iow = s₂.level l₂.iow :=
  congrArg BusLevels.iow h

theorem level_ior (h : l₁.levels s₁ = l₂.levels s₂) : s₁.level l₁.ior = s₂.level l₂.ior :=
  congrArg BusLevels.ior h

theorem level_strobe (h : l₁.levels s₁ = l₂.levels s₂) (direction : Direction) :
    s₁.level (l₁.strobe direction) = s₂.level (l₂.strobe direction) := by
  cases direction with
  | read => exact level_ior h
  | write => exact level_iow h

theorem isAlive_eq (h : l₁.levels s₁ = l₂.levels s₂) : l₁.isAlive s₁ = l₂.isAlive s₂ := by
  rw [isAlive, isAlive, level_iow h, level_ior h]

theorem isDead_iff_levels (l : Lines) (s : Sample) :
    l.isDead s ↔ (l.levels s).iow = false ∧ (l.levels s).ior = false ∧
      (∀ b ∈ (l.levels s).address, b = false) ∧ ∀ b ∈ (l.levels s).data, b = false := by
  rw [isDead_iff]
  simp only [levels, List.mem_append, List.mem_cons, List.mem_map, List.not_mem_nil, or_false]
  constructor
  · intro hlow
    refine ⟨hlow _ (.inl (.inl (.inl rfl))), hlow _ (.inl (.inl (.inr rfl))), ?_, ?_⟩
    · rintro _ ⟨offset, hoffset, rfl⟩
      exact hlow offset (.inl (.inr hoffset))
    · rintro _ ⟨offset, hoffset, rfl⟩
      exact hlow offset (.inr hoffset)
  · rintro ⟨hiow, hior, haddress, hdata⟩ offset (((rfl | rfl) | hoffset) | hoffset)
    · exact hiow
    · exact hior
    · exact haddress _ ⟨offset, hoffset, rfl⟩
    · exact hdata _ ⟨offset, hoffset, rfl⟩

theorem isDead_eq (h : l₁.levels s₁ = l₂.levels s₂) : l₁.isDead s₁ = l₂.isDead s₂ := by
  rw [Bool.eq_iff_iff, isDead_iff_levels, isDead_iff_levels, h]

theorem scattered_eq {offsets₁ offsets₂ : List Nat}
    (h : offsets₁.map s₁.level = offsets₂.map s₂.level) :
    s₁.scattered offsets₁ = s₂.scattered offsets₂ := by
  induction offsets₁ generalizing offsets₂ with
  | nil =>
      rw [List.map_nil, eq_comm, List.map_eq_nil_iff] at h
      rw [h]
      rfl
  | cons offset offsets₁ ih =>
      obtain ⟨other, offsets₂, rfl, hlevel, hrest⟩ := List.map_eq_cons_iff.mp h.symm
      rw [Sample.scattered_cons, Sample.scattered_cons, hlevel, ih hrest.symm]

theorem access_eq (h : l₁.levels s₁ = l₂.levels s₂) (direction : Direction)
    (start stop : Nat) :
    l₁.access direction start stop s₁ = l₂.access direction start stop s₂ := by
  have haddress : l₁.addressOf s₁ = l₂.addressOf s₂ :=
    congrArg (BitVec.ofNat 8) (scattered_eq (congrArg BusLevels.address h))
  have hdata : l₁.dataOf s₁ = l₂.dataOf s₂ :=
    congrArg (BitVec.ofNat 16) (scattered_eq (congrArg BusLevels.data h))
  rw [access, access, haddress, hdata]

theorem level_topData {l : Lines} (hdata : l.data ≠ []) (s : Sample) :
    s.level l.topData = (l.levels s).data.getLastD false := by
  rw [topData, levels, List.getLastD_eq_getLast?, List.getLastD_eq_getLast?, List.getLast?_map,
    List.getLast?_eq_some_getLast hdata]
  rfl

theorem changes_watched_eq (h₁ : l₁.data ≠ []) (h₂ : l₂.data ≠ [])
    (hp : l₁.levels p₁ = l₂.levels p₂) (hs : l₁.levels s₁ = l₂.levels s₂) :
    Cursor.changes l₁.watched p₁.levels s₁.levels =
      Cursor.changes l₂.watched p₂.levels s₂.levels := by
  rw [Bool.eq_iff_iff, changes_watched_iff, changes_watched_iff]
  simp only [List.mem_cons, List.not_mem_nil, or_false, exists_eq_or_imp, exists_eq_left,
    level_topData h₁, level_topData h₂, level_iow hp, level_iow hs, level_ior hp, level_ior hs,
    hp, hs]

theorem not_changes_of_levels {l : Lines} {p s : Sample} (hdata : l.data ≠ [])
    (h : l.levels s = l.levels p) : Cursor.changes l.watched p.levels s.levels = false := by
  rw [Bool.eq_false_iff, ne_eq, changes_watched_iff]
  simp [level_topData hdata, level_iow h, level_ior h, h]

end

/-! ### Lines that were found -/

theorem exists_of_bind_eq_ok {α β : Type} {x : Except Fault α} {f : α → Except Fault β} {b : β}
    (h : x >>= f = .ok b) : ∃ a, x = .ok a ∧ f a = .ok b := by
  cases x with
  | error fault => cases h
  | ok a => exact ⟨a, rfl, h⟩

theorem length_mapM {α β : Type} {f : α → Except Fault β} {xs : List α} {ys : List β}
    (h : xs.mapM f = .ok ys) : ys.length = xs.length := by
  induction xs generalizing ys with
  | nil =>
      cases h
      rfl
  | cons x xs ih =>
      rw [List.mapM_cons] at h
      obtain ⟨y, -, h⟩ := exists_of_bind_eq_ok h
      obtain ⟨zs, hzs, h⟩ := exists_of_bind_eq_ok h
      cases h
      rw [List.length_cons, List.length_cons, ih hzs]

theorem length_data {pinout : Pinout} {l : Lines} (h : ofPinout pinout = .ok l) :
    l.data.length = 16 := by
  rw [ofPinout] at h
  obtain ⟨data, hdata, h⟩ := exists_of_bind_eq_ok h
  obtain ⟨iow, -, h⟩ := exists_of_bind_eq_ok h
  obtain ⟨ior, -, h⟩ := exists_of_bind_eq_ok h
  obtain ⟨address, -, h⟩ := exists_of_bind_eq_ok h
  cases h
  exact length_mapM hdata

theorem data_ne_nil {pinout : Pinout} {l : Lines} (h : ofPinout pinout = .ok l) :
    l.data ≠ [] := by
  intro hnil
  have hlength := length_data h
  rw [hnil] at hlength
  cases hlength

end Lines

namespace Phase

/-! ### Behind a sample -/

/-- The phase is one that a capture can be in behind the sample `p`. -/
def Behind (l : Lines) (p : Sample) : Phase → Prop
  | .start => False
  | .rest q => q = p
  | .pulse direction _ latched => latched = p ∧ p.level (l.strobe direction) = false
  | .gap _ => l.isAlive p = false

theorem behind_next (l : Lines) (phase : Phase) (s : Sample) :
    (phase.next l s).Behind l s := by
  cases phase with
  | start => rfl
  | rest p =>
      simp only [next]
      split
      · split
        · rename_i hdead
          exact Lines.not_isAlive_of_isDead hdead
        · split
          · rfl
          · split
            · rename_i hlow
              exact ⟨rfl, by simpa [Lines.strobe] using hlow⟩
            · rename_i hboth hhigh
              have hiow : s.level l.iow = true := by simpa using hhigh
              exact ⟨rfl, by simpa [Lines.strobe, hiow] using hboth⟩
      · rfl
  | pulse direction since latched =>
      simp only [next]
      split
      · rfl
      · rename_i hlow
        exact ⟨rfl, Bool.eq_false_iff.mpr hlow⟩
  | gap since =>
      simp only [next]
      split
      · rfl
      · rename_i hlost
        exact Bool.eq_false_iff.mpr hlost

variable {l l₁ l₂ : Lines} {phase phase' phase₁ phase₂ : Phase} {p s s₁ s₂ : Sample}

theorem ends_eq_none (hbehind : phase.Behind l p) (hiow : s.level l.iow = p.level l.iow)
    (hior : s.level l.ior = p.level l.ior) : phase.ends l s = none := by
  cases phase with
  | start => rfl
  | rest q => rfl
  | pulse direction since latched =>
      have hlow : s.level (l.strobe direction) = false := by
        cases direction with
        | read => exact hior.trans hbehind.2
        | write => exact hiow.trans hbehind.2
      rw [ends, hlow]
      rfl
  | gap since =>
      have hlost : l.isAlive s = false := by
        rw [Lines.isAlive, hiow, hior]
        exact hbehind
      rw [ends, hlost]
      rfl

/-! ### Phases that differ in nothing but where the lines are -/

/-- The same is going on, and the samples that are remembered show the same levels. -/
inductive Alike (l₁ l₂ : Lines) : Phase → Phase → Prop
  | start : Alike l₁ l₂ .start .start
  | rest {p₁ p₂ : Sample} (hlevels : l₁.levels p₁ = l₂.levels p₂) :
      Alike l₁ l₂ (.rest p₁) (.rest p₂)
  | pulse {direction : Direction} {since : Nat} {p₁ p₂ : Sample}
      (hlevels : l₁.levels p₁ = l₂.levels p₂) :
      Alike l₁ l₂ (.pulse direction since p₁) (.pulse direction since p₂)
  | gap {since : Nat} : Alike l₁ l₂ (.gap since) (.gap since)

namespace Alike

theorem refl (l : Lines) (phase : Phase) : Alike l l phase phase := by
  cases phase with
  | start => exact .start
  | rest p => exact .rest rfl
  | pulse direction since latched => exact .pulse rfl
  | gap since => exact .gap

theorem cutOff (h : Alike l₁ l₂ phase₁ phase₂) (stop : Nat) :
    phase₁.cutOff stop = phase₂.cutOff stop := by
  cases h <;> rfl

theorem isPulse (h : Alike l₁ l₂ phase₁ phase₂) : phase₁.isPulse = phase₂.isPulse := by
  cases h <;> rfl

theorem ends (h : Alike l₁ l₂ phase₁ phase₂) (htime : s₁.time = s₂.time)
    (hs : l₁.levels s₁ = l₂.levels s₂) : phase₁.ends l₁ s₁ = phase₂.ends l₂ s₂ := by
  cases h with
  | start => rfl
  | rest hlevels => rfl
  | pulse hlevels =>
      rw [Phase.ends, Phase.ends, Lines.level_strobe hs, htime, Lines.access_eq hlevels]
  | gap => rw [Phase.ends, Phase.ends, Lines.isAlive_eq hs, htime]

theorem next (h₁ : l₁.data ≠ []) (h₂ : l₂.data ≠ []) (h : Alike l₁ l₂ phase₁ phase₂)
    (htime : s₁.time = s₂.time) (hs : l₁.levels s₁ = l₂.levels s₂) :
    Alike l₁ l₂ (phase₁.next l₁ s₁) (phase₂.next l₂ s₂) := by
  cases h with
  | start => exact .rest hs
  | rest hlevels =>
      rw [Phase.next, Phase.next, Lines.changes_watched_eq h₁ h₂ hlevels hs,
        Lines.isDead_eq hs, Lines.level_iow hs, Lines.level_ior hs, htime]
      split
      · split
        · exact .gap
        · split
          · exact .rest hs
          · split <;> exact .pulse hs
      · exact .rest hs
  | pulse hlevels =>
      rw [Phase.next, Phase.next, Lines.level_strobe hs]
      split
      · exact .rest hs
      · exact .pulse hs
  | gap =>
      rw [Phase.next, Phase.next, Lines.isAlive_eq hs]
      split
      · exact .rest hs
      · exact .gap

/-- A sample that shows the bus as the one before it does may as well be missing. -/
theorem skip (hdata : l.data ≠ []) (h : Alike l l phase phase') (hbehind : phase.Behind l p)
    (hsame : l.levels s = l.levels p) : Alike l l (phase.next l s) phase' := by
  cases h with
  | start => exact hbehind.elim
  | rest hlevels =>
      obtain rfl := hbehind
      rw [Phase.next, Lines.not_changes_of_levels hdata hsame]
      exact .rest (hsame.trans hlevels)
  | @pulse direction _ latched _ hlevels =>
      obtain ⟨rfl, hlow⟩ := hbehind
      rw [Phase.next, Lines.level_strobe hsame, hlow]
      exact .pulse (hsame.trans hlevels)
  | gap =>
      rw [Phase.next, Lines.isAlive_eq hsame, show l.isAlive p = false from hbehind]
      exact .gap

/-! ### Whole captures -/

theorem occurrences (h₁ : l₁.data ≠ []) (h₂ : l₂.data ≠ []) (h : Alike l₁ l₂ phase₁ phase₂)
    {samples₁ samples₂ : List Sample} (hview : samples₁.map l₁.view = samples₂.map l₂.view) :
    phase₁.occurrences l₁ samples₁ = phase₂.occurrences l₂ samples₂ ∧
      Alike l₁ l₂ (phase₁.after l₁ samples₁) (phase₂.after l₂ samples₂) := by
  induction samples₁ generalizing samples₂ phase₁ phase₂ with
  | nil =>
      rw [List.map_nil, eq_comm, List.map_eq_nil_iff] at hview
      rw [hview]
      exact ⟨rfl, h⟩
  | cons s₁ samples₁ ih =>
      obtain ⟨s₂, samples₂, rfl, hs, hrest⟩ := List.map_eq_cons_iff.mp hview.symm
      obtain ⟨htime, hlevels⟩ := Prod.mk.inj hs.symm
      obtain ⟨hoccurrences, hafter⟩ := ih (h.next h₁ h₂ htime hlevels) hrest.symm
      refine ⟨?_, hafter⟩
      rw [Phase.occurrences, Phase.occurrences, h.ends htime hlevels, hoccurrences]

/-- So do the samples that change the bus and all samples together. -/
theorem distinctAfter (hdata : l.data ≠ []) (h : Alike l l phase phase')
    (hbehind : phase.Behind l p) (samples : List Sample) :
    phase.occurrences l samples = phase'.occurrences l (l.distinctAfter (l.levels p) samples) ∧
      Alike l l (phase.after l samples)
        (phase'.after l (l.distinctAfter (l.levels p) samples)) := by
  induction samples generalizing phase phase' p with
  | nil => exact ⟨rfl, h⟩
  | cons s samples ih =>
      -- The two phases may remember different samples, but always such as show the same
      -- levels.
      have hnext := behind_next l phase s
      rw [Lines.distinctAfter]
      split
      · rename_i hsame
        obtain ⟨hoccurrences, hafter⟩ := ih (h.skip hdata hbehind hsame) hnext
        rw [Phase.occurrences,
          ends_eq_none hbehind (Lines.level_iow hsame) (Lines.level_ior hsame)]
        exact ⟨hoccurrences, hafter⟩
      · obtain ⟨hoccurrences, hafter⟩ := ih (h.next hdata hdata rfl rfl) hnext
        refine ⟨?_, hafter⟩
        rw [Phase.occurrences, Phase.occurrences, h.ends rfl rfl, hoccurrences]

end Alike

/-- All that happens in a capture, told from the samples that change the bus. -/
theorem distinct (hdata : l.data ≠ []) (samples : List Sample) :
    Phase.start.occurrences l samples = Phase.start.occurrences l (l.distinct samples) ∧
      Alike l l (Phase.start.after l samples) (Phase.start.after l (l.distinct samples)) := by
  cases samples with
  | nil => exact ⟨rfl, .start⟩
  | cons s samples => exact (Alike.refl l (.rest s)).distinctAfter hdata rfl samples

end Phase

namespace Monitor

variable {m₁ m₂ : Monitor} {samples₁ samples₂ : List Sample}

/-- Captures that end at the same time, and in which the bus changes in the same way, have the
same history. -/
theorem history_eq (h₁ : m₁.lines.data ≠ []) (h₂ : m₂.lines.data ≠ [])
    (hstop : Sample.lastTime 0 samples₁ = Sample.lastTime 0 samples₂)
    (hview : (m₁.lines.distinct samples₁).map m₁.lines.view =
      (m₂.lines.distinct samples₂).map m₂.lines.view) :
    m₁.history samples₁ = m₂.history samples₂ ∧
      (Phase.start.after m₁.lines samples₁).isPulse =
        (Phase.start.after m₂.lines samples₂).isPulse := by
  obtain ⟨hfirst, hafter₁⟩ := Phase.distinct h₁ samples₁
  obtain ⟨hsecond, hafter₂⟩ := Phase.distinct h₂ samples₂
  obtain ⟨hboth, hafter⟩ := Phase.Alike.occurrences h₁ h₂ .start hview
  constructor
  · rw [history, history, Phase.history, Phase.history, hfirst, hsecond, hboth, hafter₁.cutOff,
      hafter.cutOff, hafter₂.cutOff, hstop]
  · rw [hafter₁.isPulse, hafter.isPulse, hafter₂.isPulse]

/-- Two runs over captures that end at the same time, and in which the lines of the bus go
through the same levels at the same times, report the same with the same names, writes to the
control mux apart. Where the lines are in the captures, what their other lines show, how often
the samples repeat what the bus shows, and what is taken for a write to the control mux, makes
no difference. -/
theorem events_of_same_levels {pinout₁ pinout₂ : Pinout}
    (h₁ : Lines.ofPinout pinout₁ = .ok m₁.lines) (h₂ : Lines.ofPinout pinout₂ = .ok m₂.lines)
    (hnames : m₁.names = m₂.names)
    (hstop : samples₁.getLast?.map Sample.time = samples₂.getLast?.map Sample.time)
    (hview : (m₁.lines.distinct samples₁).map m₁.lines.view =
      (m₂.lines.distinct samples₂).map m₂.lines.view) :
    (m₁.events samples₁).filter (·.family.isSome) =
      (m₂.events samples₂).filter (·.family.isSome) ∧
      ∃ tally₁ tally₂, (m₁.run .collect #[] samples₁).1 = .ok tally₁ ∧
        (m₂.run .collect #[] samples₂).1 = .ok tally₂ ∧
        tally₁.accesses = tally₂.accesses ∧ tally₁.truncated = tally₂.truncated ∧
        tally₁.overflows = tally₂.overflows ∧ tally₁.endTime = tally₂.endTime := by
  have htime : Sample.lastTime 0 samples₁ = Sample.lastTime 0 samples₂ :=
    congrArg (Option.getD · 0) hstop
  obtain ⟨hhistory, hpulse⟩ :=
    history_eq (Lines.data_ne_nil h₁) (Lines.data_ne_nil h₂) htime hview
  refine ⟨?_, (Automaton.run m₁ samples₁).2, (Automaton.run m₂ samples₂).2, ?_, ?_, ?_⟩
  · rw [filter_events_family, filter_events_family, hhistory, hnames, htime]
  · rw [run_collect]
  · rw [run_collect]
  · obtain ⟨haccesses₁, hoverflows₁, htruncated₁, hend₁⟩ := tally_run m₁ samples₁
    obtain ⟨haccesses₂, hoverflows₂, htruncated₂, hend₂⟩ := tally_run m₂ samples₂
    rw [haccesses₁, haccesses₂, hoverflows₁, hoverflows₂, htruncated₁, htruncated₂, hend₁,
      hend₂, hhistory, hpulse, htime]
    exact ⟨rfl, rfl, rfl, rfl⟩

/-- A device selection in the recorder's pinout, with a change of another line in its pulse,
and in a pinout that has the bus the other way round and no line to the control mux. -/
theorem events_of_same_levels_selection :
    let pinout : Pinout :=
      { signals := [⟨0, 16, "DATA", "d"⟩, ⟨16, 3, "DA", "a"⟩, ⟨19, 1, "CS0", "c"⟩,
          ⟨20, 1, "CS1", "C"⟩, ⟨21, 1, "DIOR", "R"⟩, ⟨22, 1, "DIOW", "W"⟩,
          ⟨23, 1, "IORDY", "i"⟩]
        width := 24 }
    let lines : Lines :=
      { iow := 22, ior := 21, address := [16, 17, 18, 19, 20]
        data := [0, 1, 2, 3, 4, 5, 6, 7, 8, 9, 10, 11, 12, 13, 14, 15], dataSelect := none }
    let m₁ : Monitor := { lines := .recorder }
    let m₂ : Monitor := { lines, muxLimit := 0, muxSpan := 7 }
    let samples₁ : List Sample :=
      [⟨0, 0x3⟩, ⟨100, 0x105A⟩, ⟨120, 0x400105A⟩, ⟨150, 0x105B⟩, ⟨200, 0x3⟩]
    let samples₂ : List Sample :=
      [⟨0, 0x600000⟩, ⟨60, 0xE00000⟩, ⟨100, 0x360010⟩, ⟨150, 0x760010⟩, ⟨200, 0x600000⟩]
    Lines.ofPinout .flat = .ok m₁.lines ∧ Lines.ofPinout pinout = .ok m₂.lines ∧
      (m₁.lines.distinct samples₁).map m₁.lines.view =
        (m₂.lines.distinct samples₂).map m₂.lines.view ∧
      (m₁.events samples₁).filter (·.family.isSome) =
        [⟨100, 150, .registerWrite 0x16 (some "DEVICE") 0x10⟩, ⟨100, 200, .selection 1⟩] ∧
      (m₁.events samples₁).filter (·.family.isSome) =
        (m₂.events samples₂).filter (·.family.isSome) := by
  intro pinout lines m₁ m₂ samples₁ samples₂
  have hflat : Lines.ofPinout .flat = .ok m₁.lines := Lines.ofPinout_flat
  have hpinout : Lines.ofPinout pinout = .ok m₂.lines := rfl
  have hview : (m₁.lines.distinct samples₁).map m₁.lines.view =
      (m₂.lines.distinct samples₂).map m₂.lines.view := by decide +kernel
  have hstop : samples₁.getLast?.map Sample.time = samples₂.getLast?.map Sample.time := rfl
  refine ⟨hflat, hpinout, hview, ?_, (events_of_same_levels hflat hpinout rfl hstop hview).1⟩
  rw [events_eq]
  decide +kernel

end Monitor

end AtaCapture.Ata
