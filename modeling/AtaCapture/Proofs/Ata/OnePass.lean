import AtaCapture.Ata.Automaton
import AtaCapture.Proofs.Cursor

/-!
The monitor and the automaton. The monitor pulls samples in nested loops that share a cursor,
the automaton takes every sample once. Each loop of the monitor does with the samples it takes
what the automaton does with them one by one, and comes back to a bus at rest; so the monitor
offers its sink the events of the automaton, and counts what it counts.
-/

namespace AtaCapture.Ata

/-! ### Watched lines -/

namespace Lines

theorem testBit_foldl_mask (offsets : List Nat) (m i : Nat) :
    (offsets.foldl (fun m offset => m ||| 1 <<< offset) m).testBit i =
      (m.testBit i || decide (i ∈ offsets)) := by
  induction offsets generalizing m with
  | nil => simp
  | cons offset offsets ih =>
      have hbit : (1 <<< offset).testBit i = decide (i = offset) := by
        rw [Nat.one_shiftLeft, Nat.testBit_two_pow]
        exact decide_eq_decide.mpr eq_comm
      rw [List.foldl_cons, ih, Nat.testBit_or, hbit, Bool.or_assoc, ← Bool.decide_or]
      simp

@[simp] theorem testBit_mask (offsets : List Nat) (i : Nat) :
    (mask offsets).testBit i = decide (i ∈ offsets) := by
  rw [mask, testBit_foldl_mask]
  simp

theorem changes_of_differs {offsets : List Nat} {offset : Nat} (hmem : offset ∈ offsets)
    {before after : Nat} (h : before.testBit offset ≠ after.testBit offset) :
    Cursor.changes (mask offsets) before after := by
  have hbit : ((before ^^^ after) &&& mask offsets).testBit offset = true := by
    simp [hmem, h]
  have hne : ((before ^^^ after) &&& mask offsets) ≠ 0 := by
    intro hzero
    rw [hzero] at hbit
    simp at hbit
  simp [Cursor.changes, hne]

theorem testBit_eq_of_not_changes {offsets : List Nat} {offset : Nat} (hmem : offset ∈ offsets)
    {before after : Nat} (h : Cursor.changes (mask offsets) before after = false) :
    after.testBit offset = before.testBit offset := by
  refine Decidable.byContradiction fun hne => ?_
  rw [changes_of_differs hmem (Ne.symm hne)] at h
  cases h

variable {l : Lines} {p s : Sample}

/-- The wait ends with a sample on which one of the watched lines has another level. -/
theorem changes_watched_iff :
    Cursor.changes l.watched p.levels s.levels ↔
      ∃ offset ∈ [l.iow, l.ior, l.topData], s.level offset ≠ p.level offset := by
  constructor
  · intro hchanges
    refine Decidable.byContradiction fun hsame => ?_
    have hzero : (p.levels ^^^ s.levels) &&& l.watched = 0 := by
      refine Nat.eq_of_testBit_eq fun i => ?_
      rw [Nat.testBit_and, Nat.testBit_xor, watched, testBit_mask, Nat.zero_testBit]
      by_cases hmem : i ∈ [l.iow, l.ior, l.topData]
      · have heq : s.levels.testBit i = p.levels.testBit i :=
          Decidable.byContradiction fun hne => hsame ⟨i, hmem, hne⟩
        rw [heq, Bool.xor_self, Bool.false_and]
      · rw [decide_eq_false hmem, Bool.and_false]
    have hwatched : l.watched ≠ 0 := by
      intro hnone
      have hbit := congrArg (fun n => n.testBit l.iow) hnone
      simp [watched] at hbit
    simp [Cursor.changes, hzero, hwatched] at hchanges
  · rintro ⟨offset, hmem, hne⟩
    exact changes_of_differs hmem (Ne.symm hne)

/-- No strobe rises or falls unseen. -/
theorem isAlive_eq_of_not_changes (h : Cursor.changes l.watched p.levels s.levels = false) :
    l.isAlive s = l.isAlive p := by
  have hiow := testBit_eq_of_not_changes (show l.iow ∈ _ by simp) h
  have hior := testBit_eq_of_not_changes (show l.ior ∈ _ by simp) h
  simp only [isAlive, Sample.level, hiow, hior]

theorem isDead_iff :
    l.isDead s ↔ ∀ offset ∈ [l.iow, l.ior] ++ l.address ++ l.data, s.level offset = false := by
  rw [isDead, decide_eq_true_iff, bus]
  constructor
  · intro hzero offset hmem
    show s.levels.testBit offset = false
    have hbit := congrArg (fun n => n.testBit offset) hzero
    simpa only [Nat.testBit_and, testBit_mask, hmem, decide_true, Bool.and_true,
      Nat.zero_testBit] using hbit
  · intro hlow
    refine Nat.eq_of_testBit_eq fun i => ?_
    rw [Nat.testBit_and, testBit_mask, Nat.zero_testBit]
    by_cases hmem : i ∈ [l.iow, l.ior] ++ l.address ++ l.data
    · rw [show s.levels.testBit i = false from hlow i hmem, Bool.false_and]
    · rw [decide_eq_false hmem, Bool.and_false]

theorem not_isAlive_of_isDead (h : l.isDead s) : l.isAlive s = false := by
  rw [isAlive, isDead_iff.mp h l.iow (by simp), isDead_iff.mp h l.ior (by simp)]
  rfl

theorem changes_of_isDead (hp : l.isAlive p) (hs : l.isDead s) :
    Cursor.changes l.watched p.levels s.levels := by
  refine Decidable.byContradiction fun hsame => ?_
  rw [← isAlive_eq_of_not_changes (Bool.eq_false_iff.mpr hsame), not_isAlive_of_isDead hs]
      at hp
  cases hp

end Lines

/-! ### Reports -/

def follow (events : List Event) (report : List Event × Tally) : List Event × Tally :=
  (events ++ report.1, report.2)

@[simp] theorem follow_nil (report : List Event × Tally) : follow [] report = report := rfl

namespace Automaton

theorem fst_read_cons (m : Monitor) (a : Account) (time : Nat) (s : Sample)
    (rest : List Sample) :
    (read m a time (s :: rest)).1 = (step m a s (rest.head?.map Sample.time)).1 ++
      (read m (step m a s (rest.head?.map Sample.time)).2 s.time rest).1 := rfl

theorem read_cons (m : Monitor) (a : Account) (time : Nat) (s : Sample) (rest : List Sample) :
    read m a time (s :: rest) = follow (step m a s (rest.head?.map Sample.time)).1
      (read m (step m a s (rest.head?.map Sample.time)).2 s.time rest) := rfl

variable {m : Monitor} {a : Account} {p s : Sample} {next : Option Nat}

theorem step_unchanged (ha : a.phase = .rest p)
    (h : Cursor.changes m.lines.watched p.levels s.levels = false) :
    step m a s next = ([], { a with phase := .rest s }) := by
  simp [step, ha, h]

theorem step_changed (ha : a.phase = .rest p)
    (h : Cursor.changes m.lines.watched p.levels s.levels) :
    step m a s next = awake m a s next := by
  simp [step, ha, h]

theorem step_dead (ha : a.phase = .rest p) (hp : m.lines.isAlive p) (hs : m.lines.isDead s) :
    step m a s next = ([], { a with phase := .gap s.time }) := by
  rw [step_changed ha (Lines.changes_of_isDead hp hs), awake, if_pos hs]

variable {direction : Direction} {since : Nat} {latched : Sample}

theorem step_held (ha : a.phase = .pulse direction since latched)
    (h : s.level (m.lines.strobe direction) = false) :
    step m a s next = ([], { a with phase := .pulse direction since s }) := by
  simp [step, ha, h]

theorem step_risen (ha : a.phase = .pulse direction since latched)
    (h : s.level (m.lines.strobe direction)) :
    step m a s next = complete m a (m.lines.access direction since s.time latched) s := by
  simp [step, ha, h]

theorem step_lost (ha : a.phase = .gap since) (h : m.lines.isAlive s = false) :
    step m a s next = ([], a) := by
  simp [step, ha, h]

theorem step_resumed (ha : a.phase = .gap since) (h : m.lines.isAlive s) :
    step m a s next = endGap a since s.time (.rest s) := by
  simp [step, ha, h]

end Automaton

namespace Monitor

open Automaton

/-- What a run makes of a report: the sink is offered the events, and the tally counts them. -/
def settle {σ : Type} (sink : Sink σ) (state : σ) (offered : Nat)
    (report : List Event × Tally) :
    Except Fault Tally × σ :=
  match deliver sink state offered report.1 with
  | (some fault, state, _) => (.error fault, state)
  | (none, state, offered) => (.ok { report.2 with events := offered }, state)

theorem deliver_append {σ : Type} (sink : Sink σ) (state : σ) (offered : Nat)
    (a b : List Event) :
    deliver sink state offered (a ++ b) =
      match deliver sink state offered a with
      | (some fault, state, offered) => (some fault, state, offered)
      | (none, state, offered) => deliver sink state offered b := by
  induction a generalizing state offered with
  | nil => rfl
  | cons e a ih =>
      simp only [List.cons_append, deliver]
      split
      · rfl
      · exact ih ..

theorem settle_follow {σ : Type} (sink : Sink σ) (state : σ) (offered : Nat)
    (events : List Event) (report : List Event × Tally) :
    settle sink state offered (follow events report) =
      match deliver sink state offered events with
      | (some fault, state, _) => (.error fault, state)
      | (none, state, offered) => settle sink state offered report := by
  simp only [settle, follow, deliver_append]
  cases deliver sink state offered events with
  | mk fault rest => cases fault <;> rfl

/-! ### The loops of the monitor -/

variable {m : Monitor} {c : Cursor} {p : Sample} {rest : List Sample}

theorem gapEnd_eq (m : Monitor) (c : Cursor) :
    m.gapEnd c =
      match c.wait m.lines.watched with
      | (none, c) => (c.time, c)
      | (some s, c') => if m.lines.isAlive s then (s.time, c') else m.gapEnd c' := by
  rw [gapEnd]
  split <;> rename_i h <;> rw [h]

theorem gapEnd_nil (hc : c.Stands (some p) []) :
    ∃ c' : Cursor, m.gapEnd c = (p.time, c') ∧ c'.Stands (some p) [] := by
  obtain ⟨c', hwait, hc'⟩ := Cursor.wait_nil m.lines.watched hc
  refine ⟨c', ?_, hc'⟩
  rw [gapEnd_eq, hwait]
  dsimp only
  rw [Cursor.time_eq hc']

theorem gapEnd_cons {s : Sample} (hc : c.Stands (some p) (s :: rest))
    (hp : m.lines.isAlive p = false) :
    ∃ c' : Cursor, c'.Stands (some s) rest ∧
      m.gapEnd c = if m.lines.isAlive s then (s.time, c') else m.gapEnd c' := by
  cases hchanges : Cursor.changes m.lines.watched p.levels s.levels with
  | true =>
      obtain ⟨c', hwait, hc'⟩ := Cursor.wait_of_changes hc hchanges
      exact ⟨c', hc', by rw [gapEnd_eq, hwait]⟩
  | false =>
      have hs : m.lines.isAlive s = false :=
        (Lines.isAlive_eq_of_not_changes hchanges).trans hp
      obtain ⟨c', hwait, hc'⟩ := Cursor.wait_of_not_changes hc hchanges
      refine ⟨c', hc', ?_⟩
      rw [gapEnd_eq, hwait, ← gapEnd_eq, hs]
      rfl

theorem read_gap (hc : c.Stands (some p) rest) (hp : m.lines.isAlive p = false) {a : Account}
    {since : Nat} (ha : a.phase = .gap since) :
    ∃ q rest', (m.gapEnd c).1 = q.time ∧ (m.gapEnd c).2.Stands (some q) rest' ∧
      rest'.length ≤ rest.length ∧
      Automaton.read m a p.time rest = follow (endGap a since q.time (.rest q)).1
        (Automaton.read m (endGap a since q.time (.rest q)).2 q.time rest') := by
  -- Each sample that leaves the strobes low moves the cursor on and the automaton nowhere.
  induction rest generalizing c p with
  | nil =>
      obtain ⟨c', hend, hc'⟩ := gapEnd_nil (m := m) hc
      refine ⟨p, [], by rw [hend], by rwa [hend], Nat.le_refl _, ?_⟩
      simp [Automaton.read, cutOff, ha, endGap, follow]
  | cons s rest ih =>
      obtain ⟨c', hc', hend⟩ := gapEnd_cons hc hp
      rw [read_cons]
      cases hs : m.lines.isAlive s with
      | true =>
          rw [hs, if_pos rfl] at hend
          refine ⟨s, rest, by rw [hend], by rwa [hend], Nat.le_succ _, ?_⟩
          rw [step_resumed ha hs]
      | false =>
          rw [hs, if_neg Bool.false_ne_true] at hend
          obtain ⟨q, rest', htime, hstands, hle, hread⟩ := ih hc' hs
          refine ⟨q, rest', by rw [hend, htime], by rwa [hend], Nat.le_succ_of_le hle, ?_⟩
          rw [step_lost ha hs, hread, follow_nil]

theorem pulse_eq (strobe : Nat) (latched : Sample) (c : Cursor) :
    pulse strobe latched c =
      match c.next with
      | (none, c) => (none, c)
      | (some s, c') =>
        if s.level strobe then (some (latched, s.time), c') else pulse strobe s c' := by
  rw [pulse]
  split <;> rename_i h <;> rw [h]

/-- Following a strobe takes the samples that the automaton reads in its pulse. -/
theorem read_pulse {direction : Direction} {since : Nat} {a : Account}
    (hc : c.Stands (some p) rest) (ha : a.phase = .pulse direction since p) :
    ∃ q rest', (pulse (m.lines.strobe direction) p c).2.Stands (some q) rest' ∧
      rest'.length ≤ rest.length ∧
      match (pulse (m.lines.strobe direction) p c).1 with
      | none =>
        Automaton.read m a p.time rest = Automaton.read m { a with
          phase := .rest q
          tally := { a.tally with truncated := a.tally.truncated + 1 } } q.time rest'
      | some (latched, stop) =>
        Automaton.read m a p.time rest =
          follow (Automaton.complete m a (m.lines.access direction since stop latched) q).1
            (Automaton.read m
              (Automaton.complete m a (m.lines.access direction since stop latched) q).2
              q.time rest') := by
  induction rest generalizing c p a with
  | nil =>
      obtain ⟨c', hnext, hc'⟩ := Cursor.next_nil hc
      rw [pulse_eq, hnext]
      refine ⟨p, [], hc', Nat.le_refl _, ?_⟩
      simp [Automaton.read, cutOff, ha]
  | cons s rest ih =>
      obtain ⟨c', hnext, hc'⟩ := Cursor.next_cons hc
      rw [read_cons, pulse_eq, hnext]
      dsimp only
      cases hs : s.level (m.lines.strobe direction) with
      | true =>
          rw [if_pos rfl]
          refine ⟨s, rest, hc', Nat.le_succ _, ?_⟩
          rw [step_risen ha hs]
      | false =>
          rw [if_neg Bool.false_ne_true]
          obtain ⟨q, rest', hstands, hle, hread⟩ :=
            ih (a := { a with phase := .pulse direction since s }) hc' rfl
          refine ⟨q, rest', hstands, Nat.le_succ_of_le hle, ?_⟩
          rw [step_held ha hs, follow_nil]
          exact hread

/-! ### One look at the bus -/

/-- Between two looks the automaton rests behind the sample the cursor stands at, and knows
what the monitor knows. Only the number of events offered is none of its business. -/
structure Mirrors (a : Account) (w : Watch) (p : Sample) (rest : List Sample) : Prop where
  cursor : w.cursor.Stands (some p) rest
  phase : a.phase = .rest p
  activity : a.activity = w.activity
  tally : ∃ offered, a.tally = { w.tally with events := offered }

/-- A look has made of the samples it took the first part of a report, the automaton makes the
other part of those still to come. -/
def Begins (m : Monitor) (report : List Event × Tally) (rest : List Sample)
    (found : List Event × Watch) : Prop :=
  ∃ a q rest', Mirrors a found.2 q rest' ∧ rest'.length ≤ rest.length ∧
    report = follow found.1 (Automaton.read m a q.time rest')

section Look

variable {w : Watch} {a : Account} {s : Sample} (hc : w.cursor.Stands (some s) rest)
  (hactivity : a.activity = w.activity)
  (htally : ∃ offered, a.tally = { w.tally with events := offered })

include hc hactivity htally

theorem begins_gap (hs : m.lines.isAlive s = false) :
    Begins m (Automaton.read m { a with phase := .gap s.time } s.time rest) rest
      (m.gap w s) := by
  obtain ⟨offered, htally⟩ := htally
  obtain ⟨q, rest', htime, hstands, hle, hread⟩ := read_gap hc hs
    (a := { a with phase := .gap s.time }) rfl
  refine ⟨{ a with
    phase := .rest q
    tally := { a.tally with overflows := a.tally.overflows + 1 } }, q, rest', ?_, hle, ?_⟩
  · exact ⟨hstands, rfl, hactivity, offered, by rw [htally]; rfl⟩
  · rw [hread, gap, ← htime]
    rfl

theorem begins_rest :
    Begins m
      (follow (stayAtRest m a s (rest.head?.map Sample.time)).1
        (Automaton.read m (stayAtRest m a s (rest.head?.map Sample.time)).2 s.time rest))
      rest (m.rest w s) := by
  obtain ⟨offered, htally⟩ := htally
  -- Looking ahead does not take the next sample, which the automaton has still to read as
  -- well.
  obtain ⟨c', hpeek, hc'⟩ := Cursor.peek_eq hc
  have hheld : ((rest.head?.map Sample.time).map (· - s.time)).getD 0 =
      (rest.head?.map fun next => next.time - s.time).getD 0 := by
    rw [Option.map_map]
    rfl
  rw [stayAtRest, Monitor.rest, hpeek, hheld]
  cases m.muxValue s with
  | none =>
      exact ⟨{ a with phase := .rest s }, s, rest, ⟨hc, rfl, hactivity, offered, htally⟩,
        Nat.le_refl _, rfl⟩
  | some value =>
      dsimp only
      split
      · refine ⟨{ a with
          phase := .rest s
          tally := { a.tally with muxWrites := a.tally.muxWrites + 1 } }, s, rest, ?_,
          Nat.le_refl _, rfl⟩
        exact ⟨hc', rfl, hactivity, offered, by rw [htally]⟩
      · exact ⟨{ a with phase := .rest s }, s, rest, ⟨hc', rfl, hactivity, offered, htally⟩,
          Nat.le_refl _, rfl⟩

theorem begins_strobe (direction : Direction) :
    Begins m (Automaton.read m { a with phase := .pulse direction s.time s } s.time rest) rest
      (m.strobe w s direction) := by
  obtain ⟨offered, htally⟩ := htally
  obtain ⟨q, rest', hstands, hle, hread⟩ := read_pulse hc (m := m)
    (a := { a with phase := .pulse direction s.time s }) rfl
  rw [Monitor.strobe]
  split
  · rename_i hpulse
    rw [hpulse] at hread hstands
    refine ⟨_, q, rest', ?_, hle, hread⟩
    exact ⟨hstands, rfl, hactivity, offered, by rw [htally]⟩
  · rename_i latched stop cursor hpulse
    rw [hpulse] at hread hstands
    let x := m.lines.access direction s.time stop latched
    refine ⟨(Automaton.complete m { a with phase := .pulse direction s.time s } x q).2, q,
      rest', ?_, hle, hread.trans ?_⟩
    · exact ⟨hstands, rfl, by rw [Automaton.complete, hactivity]; rfl, offered,
        by rw [Automaton.complete, htally]; rfl⟩
    · rw [Automaton.complete, hactivity]
      rfl

theorem begins_look :
    Begins m
      (follow (awake m a s (rest.head?.map Sample.time)).1
        (Automaton.read m (awake m a s (rest.head?.map Sample.time)).2 s.time rest))
      rest (m.look w s) := by
  rw [awake, Monitor.look]
  split
  · rename_i hdead
    exact begins_gap hc hactivity htally (Lines.not_isAlive_of_isDead hdead)
  · split
    · exact begins_rest hc hactivity htally
    · split
      · exact begins_strobe hc hactivity htally .write
      · exact begins_strobe hc hactivity htally .read

end Look

/-- Only delivering events counts them. -/
theorem offered_look (m : Monitor) (w : Watch) (s : Sample) :
    (m.look w s).2.tally.events = w.tally.events := by
  unfold look gap Monitor.rest strobe complete
  split
  · rfl
  · split
    · split
      · rfl
      · dsimp only
        split <;> rfl
    · split <;> split <;> rfl

/-! ### The whole capture -/

theorem watch_eq {σ : Type} (m : Monitor) (sink : Sink σ) (state : σ) (w : Watch) :
    m.watch sink state w =
      match w.cursor.wait m.lines.watched with
      | (none, cursor) => m.close sink state { w with cursor }
      | (some s, cursor) =>
        let found := m.look { w with cursor } s
        match deliver sink state found.2.tally.events found.1 with
        | (some fault, state, _) => (.error fault, state)
        | (none, state, offered) =>
          m.watch sink state
            { found.2 with tally := { found.2.tally with events := offered } } := by
  rw [watch]
  split
  · rename_i h
    rewrite [h]
    rfl
  · rename_i h
    rewrite [h]
    rfl

theorem close_eq_settle {σ : Type} (sink : Sink σ) (state : σ) {w : Watch} {a : Account}
    (h : Mirrors a w p []) :
    m.close sink state w =
      settle sink state w.tally.events (Automaton.read m a p.time []) := by
  obtain ⟨offered, htally⟩ := h.tally
  rcases hdeliver : deliver sink state w.tally.events (w.activity.finish m.names p.time).1 with
    ⟨fault | _, state, _⟩
  all_goals
    simp only [close, settle, Automaton.read, cutOff, h.phase, h.activity,
      Cursor.time_eq h.cursor, List.nil_append, htally, hdeliver]

/-- From where a run stands, the monitor makes of the capture what the automaton makes of
it. -/
theorem watch_eq_settle {σ : Type} (sink : Sink σ) (state : σ) {w : Watch} {a : Account}
    (h : Mirrors a w p rest) :
    m.watch sink state w =
      settle sink state w.tally.events (Automaton.read m a p.time rest) := by
  -- A look takes any number of samples, so the induction is on how many there are.
  induction hlength : rest.length using Nat.strongRecOn generalizing state w a p rest with
  | ind n ih =>
      match rest, h, hlength with
      | [], h, _ =>
          obtain ⟨c', hwait, hc'⟩ := Cursor.wait_nil m.lines.watched h.cursor
          rw [watch_eq, hwait]
          exact close_eq_settle sink state (w := { w with cursor := c' })
            ⟨hc', h.phase, h.activity, h.tally⟩
      | s :: rest, h, hlength =>
          have hlt : rest.length < n := by
            rw [← hlength]
            exact Nat.lt_succ_self _
          rw [read_cons]
          cases hchanges : Cursor.changes m.lines.watched p.levels s.levels with
          | false =>
              -- The wait passes over this sample, and goes on as if it began behind it.
              obtain ⟨c', hwait, hc'⟩ := Cursor.wait_of_not_changes h.cursor hchanges
              rw [watch_eq, hwait]
              have hrest := ih _ hlt state (w := { w with cursor := c' })
                (a := { a with phase := .rest s }) ⟨hc', rfl, h.activity, h.tally⟩ rfl
              rw [watch_eq] at hrest
              rw [step_unchanged h.phase hchanges, follow_nil]
              exact hrest
          | true =>
              obtain ⟨c', hwait, hc'⟩ := Cursor.wait_of_changes h.cursor hchanges
              obtain ⟨a', q, rest', hmirrors, hle, hread⟩ :=
                begins_look (m := m) (w := { w with cursor := c' }) hc' h.activity h.tally
              rw [step_changed h.phase hchanges, hread, settle_follow, watch_eq, hwait]
              dsimp only
              rw [offered_look]
              dsimp only
              split
              · rfl
              · rename_i offered _
                obtain ⟨n', htally⟩ := hmirrors.tally
                exact ih _ (Nat.lt_of_le_of_lt hle hlt) _
                  ⟨hmirrors.cursor, hmirrors.phase, hmirrors.activity, n', by rw [htally]⟩ rfl

/-- A run offers the sink the events that the automaton reads in the capture, until the sink
refuses one, and counts what the automaton counts. -/
theorem run_eq_settle {σ : Type} (m : Monitor) (sink : Sink σ) (state : σ)
    (samples : List Sample) :
    m.run sink state samples = settle sink state 0 (Automaton.read m {} 0 samples) := by
  have hc := Cursor.stands_ofSamples samples
  cases samples with
  | nil =>
      obtain ⟨c', hwait, hc'⟩ := Cursor.wait_empty m.lines.watched hc
      rw [run, watch_eq, hwait]
      rcases hdeliver : deliver sink state 0 (Activity.idle.finish m.names 0).1 with
        ⟨fault | _, state, _⟩
      all_goals
        simp only [close, settle, Automaton.read, cutOff, Cursor.time, hc'.current,
          List.nil_append, Option.map_none, Option.getD_none, hdeliver]
  | cons s rest =>
      obtain ⟨c', hwait, hc'⟩ := Cursor.wait_first m.lines.watched hc
      have hrest := watch_eq_settle (m := m) sink state (w := { cursor := c' })
        (a := { phase := .rest s }) ⟨hc', rfl, rfl, 0, rfl⟩
      rw [run, watch_eq, hwait]
      rw [watch_eq] at hrest
      exact hrest

theorem offered_deliver {σ : Type} {sink : Sink σ} {state final : σ} {offered total : Nat}
    {events : List Event} (h : deliver sink state offered events = (none, final, total)) :
    total = offered + events.length := by
  induction events generalizing state offered with
  | nil =>
      cases h
      rfl
  | cons e events ih =>
      rw [deliver] at h
      split at h
      · cases h
      · rw [ih h, List.length_cons]
        omega

/-- What a run makes of a report from its beginning: the tally has the number of its events. -/
theorem settle_zero {σ : Type} (sink : Sink σ) (state : σ) (report : List Event × Tally) :
    settle sink state 0 report =
      match deliver sink state 0 report.1 with
      | (some fault, state, _) => (.error fault, state)
      | (none, state, _) => (.ok { report.2 with events := report.1.length }, state) := by
  rw [settle]
  rcases hdeliver : deliver sink state 0 report.1 with ⟨fault | _, final, total⟩
  · rw [offered_deliver hdeliver, Nat.zero_add]
  · rfl

theorem deliver_collect (events : Array Event) (offered : Nat) (more : List Event) :
    deliver .collect events offered more =
      (none, events ++ more.toArray, offered + more.length) := by
  induction more generalizing events offered with
  | nil => simp [deliver]
  | cons e more ih =>
      simp only [deliver, Sink.collect]
      exact (ih ..).trans (by simp; omega)

theorem events_eq (m : Monitor) (samples : List Sample) :
    m.events samples = (Automaton.read m {} 0 samples).1 := by
  rw [events, run_eq_settle, settle, deliver_collect]
  simp

/-- A sink that takes every event gets those of the automaton, with its tally. -/
theorem run_collect (m : Monitor) (samples : List Sample) :
    m.run .collect #[] samples =
      (.ok (Automaton.run m samples).2, (Automaton.run m samples).1.toArray) := by
  rw [run_eq_settle, settle_zero, deliver_collect]
  simp [Automaton.run]

theorem muxValue_eq_some_iff {m : Monitor} {s : Sample} {value : BitVec 16} :
    m.muxValue s = some value ↔
      m.lines.dataSelect.any s.level ∧ m.lines.dataOf s ≠ 0xFFFF ∧
      value = m.lines.dataOf s := by
  unfold muxValue
  dsimp only
  split
  · rename_i hselect
    obtain ⟨hany, hvalue⟩ := Bool.and_eq_true_iff.mp hselect
    rw [Option.some_inj, and_iff_right hany, and_iff_right (of_decide_eq_true hvalue), eq_comm]
  · rename_i hselect
    simp only [reduceCtorEq, false_iff]
    rintro ⟨hany, hvalue, -⟩
    exact hselect (Bool.and_eq_true_iff.mpr ⟨hany, decide_eq_true hvalue⟩)

/-- The monitor pulls samples in nested loops and looks ahead, the automaton reads them one by
one, and both report the same: any sink is offered the events of the automaton in their order
until it refuses one, and if it takes all of them, the tally is the automaton's. The three
tests of the automaton on a bus at rest are about nothing but levels: it stays at rest unless a
strobe or the highest data line differs from the sample before, it sees a gap if all lines of
the bus are low, and it looks for a write to the control mux if the line that leads the data
there is found and high and not all data lines are. -/
theorem run_eq_automaton (m : Monitor) (samples : List Sample) :
    (∀ (σ : Type) (sink : Sink σ) (state : σ), m.run sink state samples =
      match deliver sink state 0 (Automaton.run m samples).1 with
      | (some fault, state, _) => (.error fault, state)
      | (none, state, _) => (.ok (Automaton.run m samples).2, state)) ∧
    m.run .collect #[] samples =
      (.ok (Automaton.run m samples).2, (Automaton.run m samples).1.toArray) ∧
    (∀ p s : Sample, Cursor.changes m.lines.watched p.levels s.levels ↔
      ∃ offset ∈ [m.lines.iow, m.lines.ior, m.lines.topData],
        s.level offset ≠ p.level offset) ∧
    (∀ s : Sample, m.lines.isDead s ↔
      ∀ offset ∈ [m.lines.iow, m.lines.ior] ++ m.lines.address ++ m.lines.data,
        s.level offset = false) ∧
    (∀ (s : Sample) (value : BitVec 16), m.muxValue s = some value ↔
      m.lines.dataSelect.any s.level ∧ m.lines.dataOf s ≠ 0xFFFF ∧
      value = m.lines.dataOf s) := by
  refine ⟨?_, run_collect m samples, fun _ _ => Lines.changes_watched_iff,
    fun _ => Lines.isDead_iff, fun _ _ => muxValue_eq_some_iff⟩
  intro σ sink state
  rw [run_eq_settle, settle_zero]
  rfl

end Monitor

end AtaCapture.Ata
