import AtaCapture.Proofs.Ata.Accounting
import AtaCapture.Proofs.Sample
import Mathlib.Data.List.SplitBy

/-!
Pulses one by one. On a bus that pulls one strobe at a time and rests before the other one, a
pulse is a longest row of samples with a strobe low, whatever the other lines do meanwhile.
Every pulse that another sample follows is one access, the control mux is written where the
highest data line changes on a bus that stays at rest, and nothing else happens.
-/

namespace AtaCapture

namespace Ata

/-! ### Separate pulses -/

namespace Lines

def isResting (l : Lines) (s : Sample) : Bool := s.level l.iow && s.level l.ior

def pulled (l : Lines) (s : Sample) : Option Direction :=
  if !s.level l.iow then some .write else if !s.level l.ior then some .read else none

/-- One strobe is not low while the other one is, nor in the sample after it. -/
def Apart (l : Lines) (p s : Sample) : Prop :=
  ¬ (p.level l.iow = false ∧ s.level l.ior = false) ∧
    ¬ (p.level l.ior = false ∧ s.level l.iow = false)

instance (l : Lines) (p s : Sample) : Decidable (l.Apart p s) :=
  inferInstanceAs (Decidable (_ ∧ _))

/-- The bus rests first, and no pulse meets one of the other strobe. -/
structure Separated (l : Lines) (samples : List Sample) : Prop where
  rests : ∀ s ∈ samples.head?, l.isResting s
  single : ∀ s ∈ samples, ¬ (s.level l.iow = false ∧ s.level l.ior = false)
  apart : samples.IsChain l.Apart

/-- The longest rows of successive samples in all of which the bus rests, or in none. -/
def runs (l : Lines) (samples : List Sample) : List (List Sample) :=
  samples.splitBy fun p s => l.isResting p == l.isResting s

/-- The access that a row makes with a strobe low, which rises with the first sample of the
next row. -/
def pulse? (l : Lines) : List Sample → List Sample → Option Access
  | first :: run, rise :: _ =>
    (l.pulled first).map fun direction =>
      l.access direction first.time rise.time (run.getLastD first)
  | _, _ => none

def rowPulses (l : Lines) : List (List Sample) → List Access
  | run :: after :: rows => (l.pulse? run after).toList ++ l.rowPulses (after :: rows)
  | _ => []

def pulses (l : Lines) (samples : List Sample) : List Access := l.rowPulses (l.runs samples)

variable {l : Lines} {p s t : Sample} {direction : Direction}

theorem pulled_eq_none : l.pulled s = none ↔ l.isResting s := by
  cases hiow : s.level l.iow <;> cases hior : s.level l.ior <;>
    simp [pulled, isResting, hiow, hior]

theorem level_of_pulled (h : l.pulled s = some direction) :
    s.level (l.strobe direction) = false := by
  unfold pulled at h
  split at h
  · obtain rfl := Option.some.inj h
    exact Bool.not_eq_true' _ ▸ ‹_›
  · split at h
    · obtain rfl := Option.some.inj h
      exact Bool.not_eq_true' _ ▸ ‹_›
    · cases h

/-- With one strobe low at most, the other one is high in a pulse. -/
theorem not_isDead_of_single (h : ¬ (s.level l.iow = false ∧ s.level l.ior = false)) :
    l.isDead s = false := by
  refine Bool.eq_false_iff.mpr fun hdead => h ⟨?_, ?_⟩
  · exact isDead_iff.mp hdead l.iow (by simp)
  · exact isDead_iff.mp hdead l.ior (by simp)

theorem level_of_isResting (h : l.isResting s) (direction : Direction) :
    s.level (l.strobe direction) := by
  obtain ⟨hiow, hior⟩ := Bool.and_eq_true_iff.mp h
  cases direction with
  | read => exact hior
  | write => exact hiow

theorem pulled_of_apart {other : Direction} (hp : l.pulled p = some direction)
    (hapart : l.Apart p s) (hs : l.pulled s = some other) : other = direction := by
  have hplow := level_of_pulled hp
  have hslow := level_of_pulled hs
  cases direction <;> cases other
  · rfl
  · exact absurd ⟨hplow, hslow⟩ hapart.2
  · exact absurd ⟨hplow, hslow⟩ hapart.1
  · rfl

end Lines

namespace Phase

variable {l : Lines} {p s t : Sample} {direction : Direction} {since : Nat} {phase : Phase}

/-! ### One sample after the other -/

theorem next_of_isResting (hs : l.isResting s) : (Phase.rest p).next l s = .rest s := by
  have halive : l.isAlive s := by
    obtain ⟨hiow, -⟩ := Bool.and_eq_true_iff.mp hs
    rw [Lines.isAlive, hiow, Bool.true_or]
  have hdead : l.isDead s = false := by
    refine Bool.eq_false_iff.mpr fun hdead => ?_
    rw [Lines.not_isAlive_of_isDead hdead] at halive
    cases halive
  unfold next
  dsimp only
  split
  · rw [if_neg (Bool.eq_false_iff.mp hdead)]
    exact if_pos hs
  · rfl

theorem next_of_pulled (hp : l.isResting p)
    (hsingle : ¬ (s.level l.iow = false ∧ s.level l.ior = false))
    (hs : l.pulled s = some direction) :
    (Phase.rest p).next l s = .pulse direction s.time s := by
  have hlow := Lines.level_of_pulled hs
  have hchanges : Cursor.changes l.watched p.levels s.levels := by
    refine Lines.changes_watched_iff.mpr ⟨l.strobe direction, ?_, ?_⟩
    · cases direction <;> simp [Lines.strobe]
    · rw [hlow, Lines.level_of_isResting hp direction]
      decide
  have hdead := Lines.not_isDead_of_single hsingle
  rw [next, if_pos hchanges, if_neg (Bool.eq_false_iff.mp hdead)]
  unfold Lines.pulled at hs
  cases direction with
  | write =>
      have hiow : s.level l.iow = false := hlow
      simp [hiow]
  | read =>
      have hior : s.level l.ior = false := hlow
      have hiow : s.level l.iow = true := by
        rw [← Bool.not_eq_false]
        exact fun hiow => hsingle ⟨hiow, hior⟩
      simp [hiow, hior]

/-- The phase behind the sample `s` of a bus with separate pulses. -/
inductive Shows (l : Lines) (s : Sample) : Phase → Prop
  | rest (h : l.isResting s) : Shows l s (.rest s)
  | pulse {direction : Direction} {since : Nat} (h : l.pulled s = some direction) :
      Shows l s (.pulse direction since s)

theorem Shows.next (h : phase.Shows l p) (hapart : l.Apart p s)
    (hsingle : ¬ (s.level l.iow = false ∧ s.level l.ior = false)) :
    (phase.next l s).Shows l s := by
  cases hs : l.pulled s with
  | none =>
      have hresting := Lines.pulled_eq_none.mp hs
      cases h with
      | rest hp =>
          rw [next_of_isResting hresting]
          exact .rest hresting
      | pulse hp =>
          rw [Phase.next, if_pos (Lines.level_of_isResting hresting _)]
          exact .rest hresting
  | some direction =>
      cases h with
      | rest hp =>
          rw [next_of_pulled hp hsingle hs]
          exact .pulse hs
      | pulse hp =>
          obtain rfl := Lines.pulled_of_apart hp hapart hs
          rw [Phase.next, if_neg (Bool.eq_false_iff.mp (Lines.level_of_pulled hs))]
          exact .pulse hs

/-! ### Whole rows -/

theorem occurrences_of_isResting {run : List Sample} (hp : l.isResting p)
    (hrun : ∀ s ∈ run, l.isResting s) :
    (Phase.rest p).occurrences l run = [] ∧
      ∃ q, (Phase.rest p).after l run = .rest q ∧ l.isResting q := by
  induction run generalizing p with
  | nil => exact ⟨rfl, p, rfl, hp⟩
  | cons s run ih =>
      have hs := hrun s (List.mem_cons_self ..)
      have hrest := ih hs fun t ht => hrun t (List.mem_cons_of_mem _ ht)
      rw [occurrences, after, List.foldl_cons, next_of_isResting hs]
      exact hrest

/-- A pulse latches the last sample of its row. -/
theorem occurrences_of_low (since : Nat) {run : List Sample} (latched : Sample)
    (hrun : ∀ s ∈ run, s.level (l.strobe direction) = false) :
    (Phase.pulse direction since latched).occurrences l run = [] ∧
      (Phase.pulse direction since latched).after l run =
        .pulse direction since (run.getLastD latched) := by
  induction run generalizing latched with
  | nil => exact ⟨rfl, rfl⟩
  | cons s run ih =>
      have hs := Bool.eq_false_iff.mp (hrun s (List.mem_cons_self ..))
      have hrest := ih s fun t ht => hrun t (List.mem_cons_of_mem _ ht)
      rw [occurrences, after, List.foldl_cons, next, ends, if_neg hs, if_neg hs,
        List.getLastD_cons]
      exact hrest

/-- Where the bus rests at a sample, it makes no difference behind it whether a pulse has ended
there. -/
theorem occurrences_of_risen (ht : l.isResting t) (latched : Sample) (rest : List Sample) :
    (Phase.pulse direction since latched).occurrences l (t :: rest) =
      .access (l.access direction since t.time latched) ::
        (Phase.rest p).occurrences l (t :: rest) := by
  have hrise := Lines.level_of_isResting ht direction
  rw [occurrences, occurrences, next_of_isResting ht, next, ends, if_pos hrise, if_pos hrise]
  rfl

end Phase

namespace Lines

variable {l : Lines} {p s t : Sample} {direction : Direction} {run : List Sample}

/-! ### The rows of a capture -/

/-- In a row the bus rests all the time, or the strobe that is low first is low all the
time. -/
theorem isResting_of_run (hrun : (s :: run).IsChain fun p s => l.isResting p == l.isResting s)
    (hs : l.isResting s) : ∀ t ∈ s :: run, l.isResting t := by
  induction run generalizing s with
  | nil => exact fun t ht => List.mem_singleton.mp ht ▸ hs
  | cons t run ih =>
      obtain ⟨hsame, hrun⟩ := List.isChain_cons_cons.mp hrun
      rw [beq_iff_eq, hs] at hsame
      intro u hu
      rcases List.mem_cons.mp hu with rfl | hu
      · exact hs
      · exact ih hrun hsame.symm u hu

theorem level_of_run (hrun : (s :: run).IsChain fun p s => l.isResting p == l.isResting s)
    (hapart : (s :: run).IsChain l.Apart) (hs : l.pulled s = some direction) :
    ∀ t ∈ s :: run, l.pulled t = some direction := by
  induction run generalizing s with
  | nil => exact fun t ht => List.mem_singleton.mp ht ▸ hs
  | cons t run ih =>
      obtain ⟨hsame, hrun⟩ := List.isChain_cons_cons.mp hrun
      obtain ⟨hst, hapart⟩ := List.isChain_cons_cons.mp hapart
      have ht : l.pulled t = some direction := by
        cases hother : l.pulled t with
        | none =>
            rw [beq_iff_eq, pulled_eq_none.mp hother] at hsame
            rw [pulled_eq_none.mpr hsame] at hs
            cases hs
        | some other => rw [pulled_of_apart hs hst hother]
      intro u hu
      rcases List.mem_cons.mp hu with rfl | hu
      · exact hs
      · exact ih hrun hapart ht u hu

theorem occurrences_rows {rows : List (List Sample)} (hne : [] ∉ rows)
    (hrows : ∀ run ∈ rows, run.IsChain fun p s => l.isResting p == l.isResting s)
    (hturns : rows.IsChain fun a b =>
      ∃ (ha : a ≠ []) (hb : b ≠ []),
        (l.isResting (a.getLast ha) == l.isResting (b.head hb)) = false)
    (hsingle : ∀ s ∈ rows.flatten, ¬ (s.level l.iow = false ∧ s.level l.ior = false))
    (hapart : rows.flatten.IsChain l.Apart) (hp : l.isResting p) :
    (Phase.rest p).occurrences l rows.flatten = (l.rowPulses rows).map .access := by
  induction rows generalizing p with
  | nil => rfl
  | cons run rows ih =>
      rw [List.mem_cons, not_or] at hne
      obtain ⟨s, run, rfl⟩ := List.exists_cons_of_ne_nil (Ne.symm hne.1)
      have hrun := hrows _ (List.mem_cons_self ..)
      rw [List.flatten_cons] at hsingle hapart ⊢
      obtain ⟨haparts, hrest, -⟩ := List.isChain_append.mp hapart
      have hlater {q : Sample} (hq : l.isResting q) :
          (Phase.rest q).occurrences l rows.flatten = (l.rowPulses rows).map .access :=
        ih hne.2 (fun run hmem => hrows run (List.mem_cons_of_mem _ hmem)) hturns.tail
          (fun t ht => hsingle t (List.mem_append_right _ ht)) hrest hq
      rw [Phase.occurrences_append]
      cases hs : l.pulled s with
      | none =>
          -- The bus rests in this row, and goes on as if it had rested before the next one.
          have hrests := isResting_of_run hrun (pulled_eq_none.mp hs)
          obtain ⟨hnothing, q, hafter, hq⟩ := Phase.occurrences_of_isResting hp hrests
          rw [hnothing, hafter, hlater hq, List.nil_append]
          cases rows with
          | nil => rfl
          | cons after rows =>
              have hnone : l.pulse? (s :: run) after = none := by
                cases after <;> simp [pulse?, hs]
              rw [rowPulses, hnone]
              rfl
      | some direction =>
          have hlow := level_of_run hrun haparts hs
          have hfalls := Phase.next_of_pulled hp (hsingle s (List.mem_cons_self ..)) hs
          obtain ⟨hnothing, hafter⟩ := Phase.occurrences_of_low (l := l) s.time s
            fun t ht => level_of_pulled (hlow t (List.mem_cons_of_mem _ ht))
          have hpulse : (Phase.rest p).occurrences l (s :: run) = [] ∧
              (Phase.rest p).after l (s :: run) =
                .pulse direction s.time (run.getLastD s) := by
            rw [Phase.occurrences, Phase.after, List.foldl_cons, hfalls]
            exact ⟨hnothing, hafter⟩
          rw [hpulse.1, hpulse.2, List.nil_append]
          cases rows with
          | nil => rfl
          | cons after rows =>
              rw [List.mem_cons, not_or] at hne
              obtain ⟨t, after, rfl⟩ := List.exists_cons_of_ne_nil (Ne.symm hne.2.1)
              -- The strobe is low to the end of this row, so it rises with the first sample
              -- behind it.
              have ht : l.isResting t := by
                obtain ⟨⟨hlast, hfirst, hdiffers⟩, -⟩ := List.isChain_cons_cons.mp hturns
                have hlast := hlow _ (List.getLast_mem hlast)
                rw [List.head_cons] at hdiffers
                cases ht : l.isResting t with
                | true => rfl
                | false =>
                    rw [ht, beq_eq_false_iff_ne, ne_eq, Bool.not_eq_false, ← pulled_eq_none,
                      hlast] at hdiffers
                    cases hdiffers
              have hrises := hlater ht
              rw [List.flatten_cons, List.cons_append] at hrises ⊢
              rw [Phase.occurrences_of_risen ht, hrises, rowPulses, pulse?, hs]
              rfl

theorem occurrences_eq_pulses {samples : List Sample} (h : l.Separated samples) :
    Phase.start.occurrences l samples = (l.pulses samples).map .access := by
  cases samples with
  | nil => rfl
  | cons s rest =>
      have hs := h.rests s rfl
      obtain ⟨hflatten, hne, hrows, hturns⟩ :=
        List.splitBy_eq_iff.mp (rfl : l.runs (s :: rest) = _)
      have hrow := occurrences_rows (p := s) hne hrows hturns (hflatten ▸ h.single)
        (hflatten ▸ h.apart) hs
      rw [← hflatten, Phase.occurrences, Phase.next_of_isResting hs] at hrow
      exact hrow

end Lines

/-! ### The end of a capture -/

namespace Phase

variable {l : Lines} {p : Sample} {phase : Phase}

theorem Shows.after {samples : List Sample} (h : phase.Shows l p)
    (hapart : (p :: samples).IsChain l.Apart)
    (hsingle : ∀ s ∈ samples, ¬ (s.level l.iow = false ∧ s.level l.ior = false)) :
    (phase.after l samples).Shows l (samples.getLastD p) := by
  induction samples generalizing phase p with
  | nil => exact h
  | cons s samples ih =>
      obtain ⟨hps, hrest⟩ := List.isChain_cons_cons.mp hapart
      rw [Phase.after, List.foldl_cons, List.getLastD_cons]
      exact ih (h.next hps (hsingle s (List.mem_cons_self ..))) hrest
        fun t ht => hsingle t (List.mem_cons_of_mem _ ht)

theorem shows_after {s : Sample} {rest : List Sample} (h : l.Separated (s :: rest)) :
    (Phase.start.after l (s :: rest)).Shows l (rest.getLastD s) := by
  have hs : (Phase.rest s).Shows l s := .rest (h.rests s rfl)
  exact hs.after h.apart fun t ht => h.single t (List.mem_cons_of_mem _ ht)

theorem Shows.isPulse_eq (h : phase.Shows l p) : phase.isPulse = !l.isResting p := by
  cases h with
  | rest hp => rw [hp]; rfl
  | pulse hp =>
      cases hresting : l.isResting p with
      | false => rfl
      | true =>
          rw [Lines.pulled_eq_none.mpr hresting] at hp
          cases hp

theorem Shows.cutOff_eq (h : phase.Shows l p) (stop : Nat) : phase.cutOff stop = none := by
  cases h <;> rfl

end Phase

/-! ### The control mux -/

/-- The write to the control mux that a sample begins: the highest data line has changed on a
bus that rests before and after, and the bus does not show the sample for long. -/
def Monitor.muxWrite? (m : Monitor) (p s : Sample) (next : Option Sample) : Option Event :=
  let value := m.lines.dataOf s
  let held := (next.map (·.time - s.time)).getD 0
  if m.lines.isResting p ∧ m.lines.isResting s ∧
      p.level m.lines.topData ≠ s.level m.lines.topData ∧
      m.lines.dataSelect.any s.level ∧ value ≠ 0xFFFF ∧ held < m.muxLimit then
    some { start := s.time, stop := m.muxStop s.time, content := .muxWrite value }
  else none

/-- The writes that samples begin, each seen between its neighbours. -/
def Monitor.muxWrites (m : Monitor) : List Sample → List Event
  | p :: s :: rest => (m.muxWrite? p s rest.head?).toList ++ m.muxWrites (s :: rest)
  | _ => []

namespace Automaton

variable {m : Monitor} {a : Account} {p s : Sample}

theorem filter_isMuxWrite_eq_nil {events : List Event} (h : ∀ e ∈ events, e.family ≠ none) :
    events.filter Event.isMuxWrite = [] := by
  refine List.filter_eq_nil_iff.mpr fun e he hmux => h e he ?_
  rwa [Event.isMuxWrite_eq, Option.isNone_iff_eq_none] at hmux

/-- On a bus that rests only the highest data line is worth a look. -/
theorem changes_iff_of_isResting {l : Lines} (hp : l.isResting p) (hs : l.isResting s) :
    Cursor.changes l.watched p.levels s.levels ↔ p.level l.topData ≠ s.level l.topData := by
  obtain ⟨hpw, hpr⟩ := Bool.and_eq_true_iff.mp hp
  obtain ⟨hsw, hsr⟩ := Bool.and_eq_true_iff.mp hs
  rw [Lines.changes_watched_iff]
  simp [hpw, hpr, hsw, hsr, ne_comm]

theorem muxWrite?_eq_none (h : ¬ (m.lines.isResting p ∧ m.lines.isResting s))
    (next : Option Sample) : m.muxWrite? p s next = none :=
  if_neg fun hmux => h ⟨hmux.1, hmux.2.1⟩

/-- Where the bus stays at rest, a look at it is a look at the control mux. -/
theorem stayAtRest_eq (hp : m.lines.isResting p) (hs : m.lines.isResting s)
    (htop : p.level m.lines.topData ≠ s.level m.lines.topData) (next : Option Sample) :
    (stayAtRest m a s (next.map Sample.time)).1 = (m.muxWrite? p s next).toList := by
  unfold stayAtRest Monitor.muxWrite?
  cases hvalue : m.muxValue s with
  | none =>
      have hnone : ¬ (m.lines.dataSelect.any s.level ∧ m.lines.dataOf s ≠ 0xFFFF) := by
        rintro ⟨hany, hopen⟩
        rw [Monitor.muxValue_eq_some_iff.mpr ⟨hany, hopen, rfl⟩] at hvalue
        cases hvalue
      rw [if_neg fun hmux => hnone ⟨hmux.2.2.2.1, hmux.2.2.2.2.1⟩]
      rfl
  | some value =>
      obtain ⟨hany, hopen, rfl⟩ := Monitor.muxValue_eq_some_iff.mp hvalue
      simp only [Option.map_map, Function.comp_def, hp, hs, htop, ne_eq, not_false_eq_true,
        hany, hopen, true_and]
      split <;> rfl

theorem filter_step_isMuxWrite (h : a.phase.Shows m.lines p) (next : Option Sample) :
    (step m a s (next.map Sample.time)).1.filter Event.isMuxWrite =
      (m.muxWrite? p s next).toList := by
  generalize hphase : a.phase = phase at h
  cases h with
  | rest hp =>
      by_cases hs : m.lines.isResting s
      · by_cases htop : p.level m.lines.topData = s.level m.lines.topData
        · have hsame : Cursor.changes m.lines.watched p.levels s.levels = false := by
            refine Bool.eq_false_iff.mpr fun hchanges => ?_
            exact (changes_iff_of_isResting hp hs).mp hchanges htop
          rw [step_unchanged hphase hsame, Monitor.muxWrite?,
            if_neg fun hmux => hmux.2.2.1 htop]
          rfl
        · have hdead : m.lines.isDead s = false := by
            refine Lines.not_isDead_of_single fun hlow => ?_
            rw [Lines.isResting, hlow.1] at hs
            cases hs
          rw [step_changed hphase ((changes_iff_of_isResting hp hs).mpr htop), awake,
            if_neg (Bool.eq_false_iff.mp hdead), if_pos (by exact hs),
            stayAtRest_eq hp hs htop]
          cases hwrite : m.muxWrite? p s next with
          | none => rfl
          | some e =>
              rw [Monitor.muxWrite?] at hwrite
              split at hwrite
              · obtain rfl := Option.some.inj hwrite
                rfl
              · cases hwrite
      · rw [muxWrite?_eq_none fun hboth => hs hboth.2]
        have hnone : (step m a s (next.map Sample.time)).1 = [] := by
          cases hchanges : Cursor.changes m.lines.watched p.levels s.levels with
          | false => rw [step_unchanged hphase hchanges]
          | true =>
              rw [step_changed hphase hchanges, awake]
              split
              · rfl
              · rw [if_neg (by exact hs)]
                split <;> rfl
        rw [hnone]
        rfl
  | pulse hp =>
      have hrests : ¬ m.lines.isResting p := by
        rw [← Lines.pulled_eq_none, hp]
        exact Option.some_ne_none _
      rw [muxWrite?_eq_none fun hboth => hrests hboth.1]
      cases hrise : s.level (m.lines.strobe _) with
      | false => rw [step_held hphase hrise]; rfl
      | true =>
          rw [step_risen hphase hrise]
          exact filter_isMuxWrite_eq_nil fun e => family_of_mem_complete

theorem filter_read_isMuxWrite (h : a.phase.Shows m.lines p) {samples : List Sample}
    (hapart : (p :: samples).IsChain m.lines.Apart)
    (hsingle : ∀ s ∈ samples, ¬ (s.level m.lines.iow = false ∧ s.level m.lines.ior = false))
    (time : Nat) :
    (read m a time samples).1.filter Event.isMuxWrite =
      m.muxWrites (p :: samples) := by
  induction samples generalizing a p time with
  | nil =>
      have hcut : (cutOff a time).1 = [] := by
        generalize hphase : a.phase = phase at h
        cases h <;> rw [cutOff, hphase]
      refine filter_isMuxWrite_eq_nil fun e he => ?_
      replace he : e ∈ (cutOff a time).1 ++
        ((cutOff a time).2.activity.finish m.names time).1 := he
      rw [hcut, List.nil_append] at he
      obtain ⟨f, hfamily, -⟩ := Activity.family_step m.names _ _ e he
      exact Option.ne_none_iff_exists'.mpr ⟨f, hfamily⟩
  | cons s rest ih =>
      obtain ⟨hps, hrest⟩ := List.isChain_cons_cons.mp hapart
      have hnext : (step m a s (rest.head?.map Sample.time)).2.phase.Shows m.lines s := by
        rw [phase_step]
        exact h.next hps (hsingle s (List.mem_cons_self ..))
      rw [fst_read_cons, List.filter_append, filter_step_isMuxWrite h,
        ih hnext hrest (fun t ht => hsingle t (List.mem_cons_of_mem _ ht)), Monitor.muxWrites]

end Automaton

namespace Lines

/-- The levels of the address lines are the bits of the address, those of the data lines the
bits of the value; only the data register has a high byte. -/
theorem getLsbD_access (l : Lines) (direction : Direction) (start stop : Nat) (s : Sample) :
    let x := l.access direction start stop s
    (∀ i < 8, x.address.getLsbD i = l.address[i]?.any s.level) ∧
      ∀ i < 16, x.value.getLsbD i =
        (l.data[i]?.any s.level &&
          (decide (x.address = Register.data) || decide (i < 8))) := by
  intro x
  have hlow : ∀ i < 16, (0xFF : BitVec 16).getLsbD i = decide (i < 8) := by decide
  have hdata (i : Nat) (hi : i < 16) : (l.dataOf s).getLsbD i = l.data[i]?.any s.level := by
    rw [dataOf, BitVec.getLsbD_ofNat, Sample.testBit_scattered, decide_eq_true hi,
      Bool.true_and]
  refine ⟨fun i hi => ?_, fun i hi => ?_⟩
  · show (l.addressOf s).getLsbD i = _
    rw [addressOf, BitVec.getLsbD_ofNat, Sample.testBit_scattered, decide_eq_true hi,
      Bool.true_and]
  · show (if l.addressOf s = Register.data then l.dataOf s else l.dataOf s &&& 0xFF).getLsbD
        i =
      (_ && (decide (l.addressOf s = Register.data) || _))
    by_cases haddress : l.addressOf s = Register.data
    · rw [if_pos haddress, hdata i hi, decide_eq_true haddress, Bool.true_or, Bool.and_true]
    · rw [if_neg haddress, BitVec.getLsbD_and, hdata i hi, hlow i hi, decide_eq_false haddress,
        Bool.false_or]

end Lines

namespace Monitor

variable {m : Monitor} {samples : List Sample}

theorem history_of_separated (h : m.lines.Separated samples) :
    m.history samples = (m.lines.pulses samples).map .access := by
  have hcut (stop : Nat) : (Phase.start.after m.lines samples).cutOff stop = none := by
    cases samples with
    | nil => rfl
    | cons s rest => exact (Phase.shows_after h).cutOff_eq stop
  rw [history, Phase.history, hcut, Lines.occurrences_eq_pulses h]
  exact List.append_nil _

theorem muxWrites_of_separated (h : m.lines.Separated samples) :
    (m.events samples).filter Event.isMuxWrite = m.muxWrites samples := by
  rw [events_eq]
  cases samples with
  | nil => rfl
  | cons s rest =>
      have hs : (Phase.rest s).Shows m.lines s := .rest (h.rests s rfl)
      exact Automaton.filter_read_isMuxWrite (a := { phase := .rest s }) hs h.apart
        (fun t ht => h.single t (List.mem_cons_of_mem _ ht)) s.time

theorem truncated_of_separated (h : m.lines.Separated samples) :
    (Automaton.run m samples).2.truncated =
      if samples.getLast?.all m.lines.isResting then 0 else 1 := by
  rw [(tally_run m samples).2.2.1]
  cases samples with
  | nil => rfl
  | cons s rest =>
      rw [(Phase.shows_after h).isPulse_eq, List.getLast?_cons, Option.all_some,
        List.getLastD_eq_getLast?]
      cases m.lines.isResting (rest.getLast?.getD s) <;> rfl

/-- On a bus that rests first, never pulls both strobes and rests between pulses of different
strobes, every longest row of samples with a strobe low that another sample follows is one
access, from its first sample to the one behind it and latched on its last sample, and a row at
the end of the capture makes none. There are no gaps, and the control mux is written just where
the highest data line changes between two samples at rest and the later one shows a value that
is not all ones for less than the limit. The bits of an access are the levels of the address
and data lines; only the data register has a high byte. -/
theorem accesses_of_separated (m : Monitor) {samples : List Sample}
    (h : m.lines.Separated samples) :
    (m.events samples).filter (·.category.isAccess) =
        (m.lines.pulses samples).map (·.event m.names) ∧
      (m.events samples).filter (·.isMuxWrite) = m.muxWrites samples ∧
      (∃ tally, m.run .collect #[] samples = (.ok tally, (m.events samples).toArray) ∧
        tally.accesses = (m.lines.pulses samples).length ∧
        tally.truncated = (if samples.getLast?.all m.lines.isResting then 0 else 1) ∧
        tally.overflows = 0) ∧
      ∀ direction start stop (s : Sample),
        let x := m.lines.access direction start stop s
        (∀ i < 8, x.address.getLsbD i = m.lines.address[i]?.any s.level) ∧
        ∀ i < 16, x.value.getLsbD i =
          (m.lines.data[i]?.any s.level &&
            (decide (x.address = Register.data) || decide (i < 8))) := by
  have hhistory := history_of_separated h
  obtain ⟨haccesses, hoverflows, -⟩ := tally_run m samples
  refine ⟨?_, muxWrites_of_separated h, ⟨(Automaton.run m samples).2, ?_, ?_, ?_, ?_⟩,
    fun direction start stop s => m.lines.getLsbD_access direction start stop s⟩
  · rw [filter_events_access, hhistory, Occurrence.accesses, List.filterMap_map]
    exact congrArg (List.map _) List.filterMap_some
  · rw [run_collect,
      show (Automaton.run m samples).1 = m.events samples from (events_eq ..).symm]
  · rw [haccesses, hhistory, List.countP_map]
    exact List.countP_eq_length.mpr fun x _ => rfl
  · exact truncated_of_separated h
  · rw [hoverflows, hhistory, List.countP_map]
    exact List.countP_eq_zero.mpr fun x _ h => by cases h

/-- A command is written while the data still changes, and the highest data line rises with the
strobe; then it falls on a bus at rest that leads to the control mux. A word is read, and the
end of the capture cuts off one more write. -/
theorem accesses_of_separated_latched :
    let m : Monitor := { lines := .recorder }
    let samples : List Sample := [⟨0, 0x3⟩, ⟨100, 0x205E⟩, ⟨110, 0xEC5E⟩, ⟨120, 0x1800003⟩,
      ⟨130, 0x1000003⟩, ⟨140, 0x123441⟩, ⟨150, 0x3⟩, ⟨160, 0x205E⟩]
    m.lines.Separated samples ∧
      (m.events samples).filter (·.category.isAccess) =
        [⟨100, 120, .registerWrite 0x17 (some "COMMAND") 0xEC⟩, ⟨140, 150, .dataRead 0x1234⟩] ∧
      (m.events samples).filter (·.isMuxWrite) = [⟨130, 180, .muxWrite 0⟩] ∧
      ∃ tally, m.run .collect #[] samples = (.ok tally, (m.events samples).toArray) ∧
        tally.accesses = 2 ∧ tally.truncated = 1 ∧ tally.overflows = 0 := by
  intro m samples
  have hseparated : m.lines.Separated samples := ⟨by decide, by decide, by decide⟩
  obtain ⟨haccesses, hmux, ⟨tally, hrun, hcount, htruncated, hoverflows⟩, -⟩ :=
    accesses_of_separated m hseparated
  refine ⟨hseparated, haccesses.trans ?_, hmux.trans ?_, tally, hrun, hcount.trans ?_,
    htruncated.trans ?_, hoverflows⟩
  all_goals decide +kernel

end Monitor

end Ata

end AtaCapture
