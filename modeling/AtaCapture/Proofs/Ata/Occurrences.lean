import AtaCapture.Proofs.Ata.Bus

/-!
What happens on the bus. A capture is a row of accesses and gaps, and which they are is decided
by the levels of the lines alone. What is reported of a capture follows from this row, but for
the control mux: the events of a family and the counts of the tally do not depend on anything
else.
-/

namespace AtaCapture

def Sample.lastTime (time : Nat) (samples : List Sample) : Nat :=
  (samples.getLast?.map Sample.time).getD time

@[simp] theorem Sample.lastTime_nil (time : Nat) : lastTime time [] = time := rfl

@[simp] theorem Sample.lastTime_cons (time : Nat) (s : Sample) (samples : List Sample) :
    lastTime time (s :: samples) = lastTime s.time samples := by
  cases h : samples.getLast? <;> simp [lastTime, List.getLast?_cons, h]

/-- In samples in order none comes behind the last one. -/
theorem Sample.time_le_lastTime (time : Nat) {samples : List Sample}
    (hordered : samples.Pairwise (·.time ≤ ·.time)) :
    ∀ s ∈ samples, s.time ≤ lastTime time samples := by
  induction samples generalizing time with
  | nil => simp
  | cons s rest ih =>
      obtain ⟨hfirst, hrest⟩ := List.pairwise_cons.mp hordered
      intro x hx
      rw [lastTime_cons]
      rcases List.mem_cons.mp hx with rfl | hx
      · cases rest with
        | nil => exact Nat.le_refl _
        | cons t rest =>
            have ht : t.time ≤ lastTime x.time (t :: rest) :=
              ih x.time hrest t (List.mem_cons_self ..)
            exact Nat.le_trans (hfirst t (List.mem_cons_self ..)) ht
      · exact ih s.time hrest x hx

namespace Ata

inductive Occurrence where
  | access (x : Access)
  | gap (start stop : Nat)
  deriving DecidableEq, Repr

namespace Occurrence

def event (names : Names) : Occurrence → Event
  | .access x => x.event names
  | .gap start stop => { start, stop, content := .overflow }

def access? : Occurrence → Option Access
  | .access x => some x
  | .gap .. => none

def isAccess (o : Occurrence) : Bool := o.access?.isSome

def accesses (happened : List Occurrence) : List Access := happened.filterMap access?

@[simp] theorem accesses_append (a b : List Occurrence) :
    accesses (a ++ b) = accesses a ++ accesses b := List.filterMap_append

theorem sublist_accesses (names : Names) (happened : List Occurrence) :
    ((accesses happened).map (·.event names)).Sublist (happened.map (·.event names)) := by
  induction happened with
  | nil => exact .slnil
  | cons o happened ih =>
      cases o with
      | access x => exact ih.cons_cons (x.event names)
      | gap => exact ih.cons _

end Occurrence

/-! ### The row of occurrences -/

namespace Phase

def ends (l : Lines) : Phase → Sample → Option Occurrence
  | .pulse direction since latched, s =>
    if s.level (l.strobe direction) then
      some (.access (l.access direction since s.time latched))
    else none
  | .gap since, s => if l.isAlive s then some (.gap since s.time) else none
  | _, _ => none

/-- What ends with the capture. A pulse that is cut off makes no access. -/
def cutOff (stop : Nat) : Phase → Option Occurrence
  | .gap since => some (.gap since stop)
  | _ => none

def occurrences (l : Lines) (phase : Phase) : List Sample → List Occurrence
  | [] => []
  | s :: more => (phase.ends l s).toList ++ (phase.next l s).occurrences l more

def history (l : Lines) (phase : Phase) (stop : Nat) (samples : List Sample) :
    List Occurrence :=
  phase.occurrences l samples ++ ((phase.after l samples).cutOff stop).toList

variable (l : Lines) (phase : Phase)

theorem occurrences_append (a b : List Sample) :
    phase.occurrences l (a ++ b) =
      phase.occurrences l a ++ (phase.after l a).occurrences l b := by
  induction a generalizing phase with
  | nil => rfl
  | cons s a ih =>
      rw [List.cons_append, occurrences, ih, occurrences, List.append_assoc]
      rfl

theorem history_cons (stop : Nat) (s : Sample) (more : List Sample) :
    phase.history l stop (s :: more) =
      (phase.ends l s).toList ++ (phase.next l s).history l stop more := by
  rw [history, occurrences, List.append_assoc]
  rfl

theorem ended_eq (names : Names) (s : Sample) :
    phase.ended l names s = (phase.ends l s).toList.map (·.event names) := by
  cases phase with
  | start | rest => rfl
  | pulse direction since latched =>
      simp only [ended, ends]
      split <;> rfl
  | gap since =>
      simp only [ended, ends]
      split <;> rfl

theorem found_eq (names : Names) (time : Nat) (samples : List Sample) :
    phase.found l names time samples =
      (phase.history l (Sample.lastTime time samples) samples).map (·.event names) := by
  induction samples generalizing phase time with
  | nil => cases phase <;> rfl
  | cons s more ih =>
      rw [found, ended_eq, ih, history_cons, List.map_append, Sample.lastTime_cons]

theorem accesses_history (stop : Nat) (samples : List Sample) :
    Occurrence.accesses (phase.history l stop samples) =
      Occurrence.accesses (phase.occurrences l samples) := by
  have hcut : Occurrence.accesses ((phase.after l samples).cutOff stop).toList = [] := by
    cases phase.after l samples <;> rfl
  rw [history, Occurrence.accesses_append, hcut, List.append_nil]

end Phase

/-! ### What is made of it -/

namespace Activity

variable (names : Names) (a : Activity)

/-- What is reported of an occurrence, and what is under way behind it. -/
def take : Occurrence → List Event × Activity
  | .access x => (x.event names :: (a.step names x).1, (a.step names x).2)
  | .gap start stop => ([(Occurrence.gap start stop).event names], a)

def takeAll (a : Activity) : List Occurrence → List Event × Activity
  | [] => ([], a)
  | o :: more => ((a.take names o).1 ++ ((a.take names o).2.takeAll more).1,
      ((a.take names o).2.takeAll more).2)

/-- The events of all that happened in a capture that ends at `stop`. -/
def chronicle (stop : Nat) (happened : List Occurrence) : List Event :=
  (a.takeAll names happened).1 ++ ((a.takeAll names happened).2.finish names stop).1

theorem takeAll_append (before behind : List Occurrence) :
    a.takeAll names (before ++ behind) =
      ((a.takeAll names before).1 ++ ((a.takeAll names before).2.takeAll names behind).1,
        ((a.takeAll names before).2.takeAll names behind).2) := by
  induction before generalizing a with
  | nil => rfl
  | cons o before ih => simp only [List.cons_append, takeAll, ih, List.append_assoc]

theorem chronicle_append (stop : Nat) (before behind : List Occurrence) :
    a.chronicle names stop (before ++ behind) =
      (a.takeAll names before).1 ++
        (a.takeAll names before).2.chronicle names stop behind := by
  rw [chronicle, takeAll_append, List.append_assoc]
  rfl

theorem family_step (x : Access) :
    ∀ e ∈ (a.step names x).1, ∃ f, e.family = some f ∧ f ≠ .bus := by
  intro e he
  simp only [step_events, List.mem_append] at he
  rcases he with ((he | he) | he) | he
  · exact ⟨_, family_commandsStep names a.commands x e he, by decide⟩
  · exact ⟨_, family_stepTransfer a.transfer x e he, by decide⟩
  · exact ⟨_, family_stepPoll a.poll x e he, by decide⟩
  · exact ⟨_, family_stepSelection a.selection x e he, by decide⟩

end Activity

def Event.ofActivity (e : Event) : Bool := e.family.any (· ≠ .bus)

theorem Occurrence.family_event (names : Names) (o : Occurrence) :
    (o.event names).family = some .bus := by
  cases o with
  | gap => rfl
  | access x =>
      simp only [Occurrence.event, Access.event, Event.family]
      split <;> split <;> rfl

theorem Occurrence.filter_access (names : Names) (happened : List Occurrence) :
    (happened.map (·.event names)).filter (·.category.isAccess) =
      (accesses happened).map (·.event names) := by
  induction happened with
  | nil => rfl
  | cons o happened ih =>
      rw [List.map_cons, List.filter_cons, ih]
      cases o with
      | gap => rfl
      | access x =>
          rw [show ((Occurrence.access x).event names).category.isAccess = true from
            isAccess_event names x]
          rfl

namespace Activity

variable (names : Names) (a : Activity)

theorem ofActivity_step (x : Access) :
    (a.step names x).1.filter Event.ofActivity = (a.step names x).1 := by
  refine List.filter_eq_self.mpr fun e he => ?_
  obtain ⟨f, hfamily, hne⟩ := family_step names a x e he
  simp [Event.ofActivity, hfamily, hne]

theorem isSome_family_step (x : Access) :
    (a.step names x).1.filter (·.family.isSome) = (a.step names x).1 := by
  refine List.filter_eq_self.mpr fun e he => ?_
  obtain ⟨f, hfamily, -⟩ := family_step names a x e he
  rw [hfamily]
  rfl

/-- Of a chronicle, the events of the bus are what happened, as it happened. -/
theorem filter_chronicle_bus (stop : Nat) (happened : List Occurrence) :
    (a.chronicle names stop happened).filter (·.family = some .bus) =
      happened.map (·.event names) := by
  induction happened generalizing a with
  | nil => exact filter_step_family names a (a.farewell stop) .bus
  | cons o more ih =>
      rw [← List.singleton_append, chronicle_append, List.filter_append, ih, List.map_append]
      congr 1
      cases o with
      | gap => rfl
      | access x =>
          have hx := Occurrence.family_event names (.access x)
          simp only [Occurrence.event] at hx
          simp [takeAll, take, hx, filter_step_family, eventsOf, Occurrence.event]

theorem filter_chronicle_activity (stop : Nat) (happened : List Occurrence) :
    (a.chronicle names stop happened).filter Event.ofActivity =
      a.timeline names stop (Occurrence.accesses happened) := by
  induction happened generalizing a with
  | nil => exact ofActivity_step names a (a.farewell stop)
  | cons o more ih =>
      rw [← List.singleton_append, chronicle_append, List.filter_append, ih,
        Occurrence.accesses_append]
      cases o with
      | gap => rfl
      | access x =>
          have hx : (x.event names).ofActivity = false := by
            rw [Event.ofActivity, show (x.event names).family = some .bus from
              Occurrence.family_event names (.access x)]
            rfl
          simp only [takeAll, take, List.append_nil, List.filter_cons, hx, Bool.false_eq_true,
            if_false, ofActivity_step]
          rfl

end Activity

/-! ### What the automaton makes of it -/

namespace Automaton

variable {m : Monitor} {a : Account}

/-- From `a` to `a'` nothing happens but `happened`, and nothing else is reported or
counted. -/
structure Follows (m : Monitor) (a a' : Account) (events : List Event)
    (happened : List Occurrence) : Prop where
  events : events.filter (·.family.isSome) = (a.activity.takeAll m.names happened).1
  activity : a'.activity = (a.activity.takeAll m.names happened).2
  accesses : a'.tally.accesses = a.tally.accesses + happened.countP (·.isAccess)
  overflows : a'.tally.overflows = a.tally.overflows + happened.countP (!·.isAccess)
  truncated : a'.tally.truncated = a.tally.truncated

theorem follows_awake (m : Monitor) (a : Account) (s : Sample) (next : Option Nat) :
    Follows m a (awake m a s next).2 (awake m a s next).1 [] := by
  rw [awake]
  split
  · exact ⟨rfl, rfl, rfl, rfl, rfl⟩
  · split
    · rw [stayAtRest]
      split
      · exact ⟨rfl, rfl, rfl, rfl, rfl⟩
      · dsimp only
        split <;> exact ⟨rfl, rfl, rfl, rfl, rfl⟩
    · split <;> exact ⟨rfl, rfl, rfl, rfl, rfl⟩

theorem follows_complete (m : Monitor) (a : Account) (x : Access) (s : Sample) :
    Follows m a (complete m a x s).2 (complete m a x s).1 [.access x] := by
  refine ⟨?_, rfl, rfl, rfl, rfl⟩
  have hx := Occurrence.family_event m.names (.access x)
  simp only [Occurrence.event] at hx
  simp [complete, Activity.takeAll, Activity.take, hx, Activity.isSome_family_step]

/-- One sample is followed by what it ends. -/
theorem follows_step (m : Monitor) (a : Account) (s : Sample) (next : Option Nat) :
    Follows m a (step m a s next).2 (step m a s next).1 (a.phase.ends m.lines s).toList := by
  unfold step Phase.ends
  cases a.phase with
  | start => exact ⟨rfl, rfl, rfl, rfl, rfl⟩
  | rest p =>
      dsimp only
      split
      · exact follows_awake ..
      · exact ⟨rfl, rfl, rfl, rfl, rfl⟩
  | pulse direction since latched =>
      dsimp only
      split
      · exact follows_complete ..
      · exact ⟨rfl, rfl, rfl, rfl, rfl⟩
  | gap since =>
      dsimp only
      split <;> exact ⟨rfl, rfl, rfl, rfl, rfl⟩

theorem filter_cutOff_family (m : Monitor) (a : Account) (time : Nat) :
    (cutOff a time).1.filter (·.family.isSome) =
        (a.activity.takeAll m.names (a.phase.cutOff time).toList).1 ∧
      (cutOff a time).2.activity =
        (a.activity.takeAll m.names (a.phase.cutOff time).toList).2 := by
  unfold cutOff Phase.cutOff
  cases a.phase <;> exact ⟨rfl, rfl⟩

theorem tally_cutOff (a : Account) (time : Nat) :
    let happened := (a.phase.cutOff time).toList
    (cutOff a time).2.tally.accesses = a.tally.accesses + happened.countP (·.isAccess) ∧
      (cutOff a time).2.tally.overflows = a.tally.overflows + happened.countP (!·.isAccess) ∧
      (cutOff a time).2.tally.truncated = a.tally.truncated + a.phase.isPulse.toNat := by
  unfold cutOff Phase.cutOff
  cases a.phase <;> exact ⟨rfl, rfl, rfl⟩

/-- What is read in a capture, the control mux apart, is the chronicle of what happens in
it. -/
theorem filter_read_family (m : Monitor) (a : Account) (time : Nat) (samples : List Sample) :
    let stop := Sample.lastTime time samples
    (read m a time samples).1.filter (·.family.isSome) =
      a.activity.chronicle m.names stop (a.phase.history m.lines stop samples) := by
  induction samples generalizing a time with
  | nil =>
      obtain ⟨hevents, hactivity⟩ := filter_cutOff_family m a time
      simp only [read, Sample.lastTime_nil, List.filter_append, hevents, hactivity]
      rw [show ∀ a : Activity, (a.finish m.names time).1.filter (·.family.isSome) =
        (a.finish m.names time).1 from fun a => Activity.isSome_family_step m.names a _]
      rfl
  | cons s more ih =>
      have hstep := follows_step m a s (more.head?.map Sample.time)
      dsimp only at ih ⊢
      rw [read_cons, follow, List.filter_append, ih, hstep.events, hstep.activity, phase_step,
        Phase.history_cons, Activity.chronicle_append, Sample.lastTime_cons]

theorem tally_read (m : Monitor) (a : Account) (time : Nat) (samples : List Sample) :
    let stop := Sample.lastTime time samples
    let happened := a.phase.history m.lines stop samples
    let tally := (read m a time samples).2
    tally.accesses = a.tally.accesses + happened.countP (·.isAccess) ∧
      tally.overflows = a.tally.overflows + happened.countP (!·.isAccess) ∧
      tally.truncated = a.tally.truncated + (a.phase.after m.lines samples).isPulse.toNat ∧
      tally.endTime = stop := by
  induction samples generalizing a time with
  | nil =>
      obtain ⟨haccesses, hoverflows, htruncated⟩ := tally_cutOff a time
      exact ⟨haccesses, hoverflows, htruncated, rfl⟩
  | cons s more ih =>
      have hstep := follows_step m a s (more.head?.map Sample.time)
      obtain ⟨haccesses, hoverflows, htruncated, hend⟩ :=
        ih (step m a s (more.head?.map Sample.time)).2 s.time
      rw [phase_step] at haccesses hoverflows htruncated
      simp only [read_cons, follow, Sample.lastTime_cons, Phase.history_cons,
        List.countP_append]
      refine ⟨?_, ?_, ?_, hend⟩
      · rw [haccesses, hstep.accesses, Nat.add_assoc]
      · rw [hoverflows, hstep.overflows, Nat.add_assoc]
      · rw [htruncated, hstep.truncated]
        rfl

end Automaton

namespace Monitor

def history (m : Monitor) (samples : List Sample) : List Occurrence :=
  Phase.start.history m.lines (Sample.lastTime 0 samples) samples

/-- What a run counts, the control mux apart. -/
theorem tally_run (m : Monitor) (samples : List Sample) :
    (Automaton.run m samples).2.accesses = (m.history samples).countP (·.isAccess) ∧
      (Automaton.run m samples).2.overflows = (m.history samples).countP (!·.isAccess) ∧
      (Automaton.run m samples).2.truncated =
        (Phase.start.after m.lines samples).isPulse.toNat ∧
      (Automaton.run m samples).2.endTime = Sample.lastTime 0 samples := by
  obtain ⟨haccesses, hoverflows, htruncated, hend⟩ := Automaton.tally_read m {} 0 samples
  refine ⟨?_, ?_, ?_, hend⟩
  · exact haccesses.trans (Nat.zero_add _)
  · exact hoverflows.trans (Nat.zero_add _)
  · exact htruncated.trans (Nat.zero_add _)

theorem filter_events_family (m : Monitor) (samples : List Sample) :
    (m.events samples).filter (·.family.isSome) =
      Activity.idle.chronicle m.names (Sample.lastTime 0 samples) (m.history samples) := by
  rw [events_eq]
  exact Automaton.filter_read_family m {} 0 samples

theorem filter_events_bus (m : Monitor) (samples : List Sample) :
    (m.events samples).filter (·.family = some .bus) =
      (m.history samples).map (·.event m.names) := by
  rw [← Activity.filter_chronicle_bus m.names .idle (Sample.lastTime 0 samples),
    ← filter_events_family, List.filter_filter]
  refine List.filter_congr fun e _ => ?_
  cases e.family <;> simp

theorem filter_events_ofBus (m : Monitor) (samples : List Sample) :
    (m.events samples).filter Event.ofBus = Phase.start.found m.lines m.names 0 samples := by
  rw [funext Event.ofBus_eq, Phase.found_eq]
  exact filter_events_bus m samples

/-- The rest of what is reported is the timeline of the accesses, but for the control mux. -/
theorem filter_events_activity (m : Monitor) (samples : List Sample) :
    (m.events samples).filter Event.ofActivity =
      Activity.idle.timeline m.names (Sample.lastTime 0 samples)
        (Occurrence.accesses (m.history samples)) := by
  rw [← Activity.filter_chronicle_activity, ← filter_events_family, List.filter_filter]
  refine List.filter_congr fun e _ => ?_
  cases h : e.family <;> simp [Event.ofActivity, h]

theorem filter_events_access (m : Monitor) (samples : List Sample) :
    (m.events samples).filter (·.category.isAccess) =
      (Occurrence.accesses (m.history samples)).map (·.event m.names) := by
  rw [← Occurrence.filter_access, ← filter_events_bus, List.filter_filter]
  refine List.filter_congr fun e _ => ?_
  obtain ⟨_, _, content⟩ := e
  cases content <;> rfl

end Monitor

end Ata

end AtaCapture
