import AtaCapture.Proofs.Ata.OnePass
import AtaCapture.Proofs.Ata.Parts

/-!
What the bus shows. Which access or gap a sample begins or ends follows from the phase before
it and from the lines alone. So the accesses and gaps of a capture can be read without the
protocol activity, the control mux and the counts.
-/

namespace AtaCapture.Ata

def Category.isAccess : Category → Bool
  | .registerWrite | .registerRead | .dataWrite | .dataRead => true
  | _ => false

def Event.ofBus (e : Event) : Bool := e.category.isAccess || e.content = .overflow

theorem isAccess_event (names : Names) (x : Access) : (x.event names).category.isAccess := by
  simp only [Access.event, Event.category]
  split <;> split <;> rfl

theorem Event.ofBus_eq (e : Event) : e.ofBus = decide (e.family = some .bus) := by
  obtain ⟨_, _, content⟩ := e
  cases content <;> rfl

def Lines.recorder : Lines where
  iow := 0
  ior := 1
  address := [2, 3, 4, 5, 6]
  data := [8, 9, 10, 11, 12, 13, 14, 15, 16, 17, 18, 19, 20, 21, 22, 23]
  dataSelect := some 24

theorem Lines.ofPinout_flat : Lines.ofPinout .flat = .ok .recorder := by
  rfl

theorem Lines.ofPinout_grouped : Lines.ofPinout .grouped = .ok .recorder := by
  rfl

namespace Phase

/-! ### The phases of the bus -/

def next (l : Lines) : Phase → Sample → Phase
  | .start, s => .rest s
  | .rest p, s =>
    if Cursor.changes l.watched p.levels s.levels then
      if l.isDead s then .gap s.time
      else if s.level l.iow && s.level l.ior then .rest s
      else if !s.level l.iow then .pulse .write s.time s
      else .pulse .read s.time s
    else .rest s
  | .pulse direction since _, s =>
    if s.level (l.strobe direction) then .rest s else .pulse direction since s
  | .gap since, s => if l.isAlive s then .rest s else .gap since

def ended (l : Lines) (names : Names) : Phase → Sample → List Event
  | .pulse direction since latched, s =>
    if s.level (l.strobe direction) then
      [(l.access direction since s.time latched).event names]
    else []
  | .gap since, s =>
    if l.isAlive s then [{ start := since, stop := s.time, content := .overflow }] else []
  | _, _ => []

def cut (time : Nat) : Phase → List Event
  | .gap since => [{ start := since, stop := time, content := .overflow }]
  | _ => []

/-- The accesses and gaps in the rest of a capture; `time` is that of the last sample seen. -/
def found (l : Lines) (names : Names) (phase : Phase) (time : Nat) : List Sample → List Event
  | [] => phase.cut time
  | s :: more => phase.ended l names s ++ (phase.next l s).found l names s.time more

def after (l : Lines) (phase : Phase) (samples : List Sample) : Phase :=
  samples.foldl (next l) phase

def endedBy (l : Lines) (names : Names) (phase : Phase) : List Sample → List Event
  | [] => []
  | s :: more => phase.ended l names s ++ (phase.next l s).endedBy l names more

def since : Phase → Nat
  | .start => 0
  | .rest p => p.time
  | .pulse _ since _ => since
  | .gap since => since

def isPulse : Phase → Bool
  | .pulse .. => true
  | _ => false

end Phase

/-! ### The automaton goes through these phases -/

namespace Automaton

variable (m : Monitor) (a : Account) (s : Sample)

theorem phase_awake (next : Option Nat) :
    (awake m a s next).2.phase =
      if m.lines.isDead s then .gap s.time
      else if s.level m.lines.iow && s.level m.lines.ior then .rest s
      else if !s.level m.lines.iow then .pulse .write s.time s
      else .pulse .read s.time s := by
  rw [awake]
  split
  · rfl
  · split
    · rw [stayAtRest]
      split
      · rfl
      · dsimp only
        split <;> rfl
    · split <;> rfl

theorem phase_step (next : Option Nat) :
    (step m a s next).2.phase = a.phase.next m.lines s := by
  unfold step Phase.next
  cases hphase : a.phase with
  | start => rfl
  | rest p =>
      dsimp only
      split
      · exact phase_awake ..
      · rfl
  | pulse direction since latched =>
      dsimp only
      split <;> rfl
  | gap since =>
      dsimp only
      split
      · rfl
      · exact hphase

end Automaton

namespace Phase

variable {l : Lines} {names : Names} {phase : Phase} {p s : Sample} {samples : List Sample}
  {e : Event}

theorem found_append (time : Nat) (s : Sample) (more : List Sample) :
    phase.found l names time (samples ++ s :: more) =
      phase.endedBy l names samples ++
        (phase.after l samples).found l names s.time (s :: more) := by
  induction samples generalizing phase time with
  | nil => rfl
  | cons x samples ih =>
      rw [List.cons_append, found, ih, endedBy, List.append_assoc]
      rfl

theorem mem_found_of_mem_endedBy (time : Nat) (he : e ∈ phase.endedBy l names samples) :
    e ∈ phase.found l names time samples := by
  induction samples generalizing phase time with
  | nil => cases he
  | cons s samples ih =>
      rw [found, List.mem_append]
      exact (List.mem_append.mp he).imp_right (ih s.time)

/-! ### When it happens -/

theorem times_of_mem_ended (he : e ∈ phase.ended l names s) :
    e.start = phase.since ∧ e.stop = s.time := by
  cases phase with
  | start => cases he
  | rest p => cases he
  | pulse direction since latched =>
      simp only [ended] at he
      split at he
      · rw [List.mem_singleton.mp he]
        exact ⟨rfl, rfl⟩
      · cases he
  | gap since =>
      simp only [ended] at he
      split at he
      · rw [List.mem_singleton.mp he]
        exact ⟨rfl, rfl⟩
      · cases he

theorem start_of_mem_cut {time : Nat} (he : e ∈ phase.cut time) : e.start = phase.since := by
  cases phase <;> simp only [cut, List.mem_singleton, List.not_mem_nil] at he
  rw [he]
  rfl

theorem since_next (phase : Phase) (l : Lines) (s : Sample) :
    (phase.next l s).since = s.time ∨ (phase.next l s).since = phase.since := by
  unfold next
  cases phase with
  | start => exact .inl rfl
  | rest p =>
      dsimp only
      left
      split
      · split
        · rfl
        · split
          · rfl
          · split <;> rfl
      · rfl
  | pulse direction since latched =>
      dsimp only
      split
      · exact .inl rfl
      · exact .inr rfl
  | gap since =>
      dsimp only
      split
      · exact .inl rfl
      · exact .inr rfl

/-- A phase begins no earlier than the one before it, and no later than the sample it begins
with. -/
theorem since_le_next (l : Lines) (hsince : phase.since ≤ s.time) :
    phase.since ≤ (phase.next l s).since ∧ (phase.next l s).since ≤ s.time := by
  rcases since_next phase l s with h | h
  · rw [h]
    exact ⟨hsince, Nat.le_refl _⟩
  · rw [h]
    exact ⟨Nat.le_refl _, hsince⟩

theorem since_le_start {time : Nat} (he : e ∈ phase.found l names time samples)
    (hordered : samples.Pairwise (·.time ≤ ·.time))
    (hsince : ∀ x ∈ samples, phase.since ≤ x.time) : phase.since ≤ e.start := by
  induction samples generalizing phase time with
  | nil => exact Nat.le_of_eq (start_of_mem_cut he).symm
  | cons s samples ih =>
      obtain ⟨hfirst, hordered⟩ := List.pairwise_cons.mp hordered
      have hs := hsince s (List.mem_cons_self ..)
      rcases List.mem_append.mp he with he | he
      · exact Nat.le_of_eq (times_of_mem_ended he).1.symm
      · -- The next phase begins between this one and the sample, and so before all samples
        -- behind it.
        have hnext := since_le_next l hs
        have hlater := ih he hordered fun x hx => Nat.le_trans hnext.2 (hfirst x hx)
        exact Nat.le_trans hnext.1 hlater

theorem stop_of_mem_endedBy (he : e ∈ phase.endedBy l names samples) :
    ∃ x ∈ samples, e.stop = x.time := by
  induction samples generalizing phase with
  | nil => cases he
  | cons s samples ih =>
      rcases List.mem_append.mp he with he | he
      · exact ⟨s, List.mem_cons_self .., (times_of_mem_ended he).2⟩
      · obtain ⟨x, hx, hstop⟩ := ih he
        exact ⟨x, List.mem_cons_of_mem _ hx, hstop⟩

/-! ### Where gaps begin -/

theorem gap_of_overflow_mem_ended (he : e ∈ phase.ended l names s)
    (hc : e.content = .overflow) :
    phase = .gap e.start := by
  have hstart := (times_of_mem_ended he).1
  cases phase with
  | start => cases he
  | rest p => cases he
  | pulse direction since latched =>
      simp only [ended] at he
      split at he
      · have haccess := isAccess_event names (l.access direction since s.time latched)
        rw [← List.mem_singleton.mp he, Event.category, hc] at haccess
        cases haccess
      · cases he
  | gap since => rw [hstart]; rfl

theorem gap_of_next_eq_gap {time : Nat} (h : phase.next l s = .gap time) :
    phase = .gap time ∨ l.isDead s ∧ time = s.time := by
  unfold next at h
  cases phase with
  | start => cases h
  | rest p =>
      right
      dsimp only at h
      split at h
      · split at h
        · rename_i hdead
          cases h
          exact ⟨hdead, rfl⟩
        · split at h
          · cases h
          · split at h <;> cases h
      · cases h
  | pulse direction since latched =>
      dsimp only at h
      split at h <;> cases h
  | gap since =>
      dsimp only at h
      split at h
      · cases h
      · exact .inl h

/-- A gap was under way before the samples that it is found in, or begins with a dead bus among
them. -/
theorem start_of_overflow_mem_found {time : Nat} (he : e ∈ phase.found l names time samples)
    (hc : e.content = .overflow) :
    phase = .gap e.start ∨ ∃ x ∈ samples, l.isDead x ∧ e.start = x.time := by
  induction samples generalizing phase time with
  | nil =>
      cases phase <;> simp only [found, cut, List.mem_singleton, List.not_mem_nil] at he
      rw [he]
      exact .inl rfl
  | cons s samples ih =>
      rcases List.mem_append.mp he with he | he
      · exact .inl (gap_of_overflow_mem_ended he hc)
      · rcases ih he with hgap | ⟨x, hx, hstart⟩
        · rcases gap_of_next_eq_gap hgap with hgap | hbegins
          · exact .inl hgap
          · exact .inr ⟨s, List.mem_cons_self .., hbegins⟩
        · exact .inr ⟨x, List.mem_cons_of_mem _ hx, hstart⟩

end Phase

end AtaCapture.Ata
