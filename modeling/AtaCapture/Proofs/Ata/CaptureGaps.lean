import AtaCapture.Proofs.Ata.Occurrences

/-!
Gaps in a capture. A sample with every line of the bus low begins a gap that lasts until a
strobe is high again, and nothing else is reported of that time. This holds wherever the
monitor waits for the bus to change. It does not while it follows a strobe: there the sample is
taken for one more sample of the pulse, no gap begins with it, and the access goes on behind
it.
-/

namespace AtaCapture.Ata

/-- The sample that ends a gap which `s` is in: the first one with a strobe high, or else the
last one of the capture. -/
def Lines.resumption (l : Lines) (s : Sample) (after : List Sample) : Sample :=
  ((after.find? l.isAlive).or after.getLast?).getD s

def Event.Overlaps (e f : Event) : Prop := e.start < f.stop ∧ f.start < e.stop

namespace Phase

variable {l : Lines} {names : Names} {p s t : Sample} {before lost rest after : List Sample}

/-! ### Before a gap -/

theorem next_of_isAlive (phase : Phase) (hp : l.isAlive p) :
    phase.next l p = .rest p ∨ ∃ direction since,
      phase.next l p = .pulse direction since p := by
  unfold next
  cases phase with
  | start => exact .inl rfl
  | rest q =>
      dsimp only
      split
      · split
        · rename_i hdead
          rw [Lines.not_isAlive_of_isDead hdead] at hp
          cases hp
        · split
          · exact .inl rfl
          · split <;> exact .inr ⟨_, _, rfl⟩
      · exact .inl rfl
  | pulse direction since latched =>
      dsimp only
      split
      · exact .inl rfl
      · exact .inr ⟨_, _, rfl⟩
  | gap since =>
      dsimp only
      rw [if_pos hp]
      exact .inl rfl

theorem after_concat (phase : Phase) (before : List Sample) (p : Sample) :
    phase.after l (before ++ [p]) = (phase.after l before).next l p := by
  rw [after, List.foldl_append]
  rfl

theorem next_of_isDead (hp : l.isAlive p) (hs : l.isDead s) :
    (Phase.rest p).next l s = .gap s.time := by
  rw [next, if_pos (Lines.changes_of_isDead hp hs), if_pos hs]

theorem next_pulse_of_isDead (names : Names) {direction : Direction} {since : Nat}
    (hs : l.isDead s) :
    (Phase.pulse direction since p).next l s = .pulse direction since s ∧
      (Phase.pulse direction since p).ended l names s = [] := by
  have hlow : s.level (l.strobe direction) = false := by
    refine Lines.isDead_iff.mp hs _ ?_
    cases direction <;> simp [Lines.strobe]
  rw [next, ended, hlow]
  exact ⟨rfl, rfl⟩

/-! ### In a gap and in a pulse -/

theorem found_pulse {direction : Direction} {since time : Nat} {latched : Sample}
    (hlost : ∀ x ∈ lost, x.level (l.strobe direction) = false)
    (ht : t.level (l.strobe direction)) :
    (Phase.pulse direction since latched).found l names time (lost ++ t :: rest) =
      (l.access direction since t.time (lost.getLastD latched)).event names ::
        (Phase.rest t).found l names t.time rest := by
  induction lost generalizing latched time with
  | nil =>
      rw [List.nil_append, found, ended, next, if_pos ht, if_pos ht]
      rfl
  | cons x lost ih =>
      have hx := hlost x (List.mem_cons_self ..)
      rw [List.cons_append, found, ended, next, hx]
      rw [List.getLastD_cons]
      exact ih fun y hy => hlost y (List.mem_cons_of_mem _ hy)

/-- A gap is found first of all. Where a strobe is high again, the bus rests and the capture
goes on. -/
theorem found_gap (l : Lines) (names : Names) (since : Nat) (s : Sample)
    (after : List Sample) :
    ∃ later, (Phase.gap since).found l names s.time after =
        { start := since, stop := (l.resumption s after).time, content := .overflow } ::
          later ∧
      (later = [] ∨ ∃ lost q rest, after = lost ++ q :: rest ∧ l.resumption s after = q ∧
        later = (Phase.rest q).found l names q.time rest) := by
  -- While the strobes stay low the gap goes on, and only the last sample seen changes.
  induction after generalizing s with
  | nil => exact ⟨[], rfl, .inl rfl⟩
  | cons x after ih =>
      rw [found, ended, next]
      cases hx : l.isAlive x with
      | true =>
          have hresumption : l.resumption s (x :: after) = x := by
            simp [Lines.resumption, hx]
          rw [hresumption]
          exact ⟨_, rfl, .inr ⟨[], x, after, rfl, rfl, rfl⟩⟩
      | false =>
          have hresumption : l.resumption s (x :: after) = l.resumption x after := by
            rw [Lines.resumption, Lines.resumption, List.find?_cons_of_neg (by simp [hx])]
            cases after.find? l.isAlive with
            | some q => rfl
            | none => rw [Option.none_or, Option.none_or, List.getLast?_cons, Option.getD_some]
          obtain ⟨later, hfound, hlater⟩ := ih x
          rw [hresumption]
          refine ⟨later, hfound, hlater.imp_right ?_⟩
          rintro ⟨lost, q, rest, rfl, hq⟩
          exact ⟨x :: lost, q, rest, rfl, hq⟩

end Phase

namespace Monitor

variable {m : Monitor} {before after : List Sample} {p s : Sample}

theorem filter_events (m : Monitor) (before after : List Sample) (p s : Sample) :
    (m.events (before ++ p :: s :: after)).filter Event.ofBus =
      Phase.start.endedBy m.lines m.names (before ++ [p]) ++
        (Phase.start.after m.lines (before ++ [p])).found m.lines m.names s.time
          (s :: after) := by
  have hsplit : before ++ p :: s :: after = (before ++ [p]) ++ s :: after := by simp
  rw [hsplit, filter_events_ofBus]
  exact Phase.found_append ..

theorem filter_gaps (events : List Event) (time : Nat) :
    events.filter (fun e => e.content = .overflow && e.start = time) =
      (events.filter Event.ofBus).filter
      (fun e => e.content = .overflow && e.start = time) := by
  rw [List.filter_filter]
  refine List.filter_congr fun e _ => ?_
  cases hcontent : decide (e.content = .overflow) with
  | false => rfl
  | true => simp [Event.ofBus, hcontent]

theorem filter_gaps_eq_nil {events : List Event} {samples : List Sample} {time : Nat}
    (halone : ∀ x ∈ samples, m.lines.isDead x → x.time ≠ time)
    (h : ∀ e ∈ events, e.content = .overflow →
      ∃ x ∈ samples, m.lines.isDead x ∧ e.start = x.time) :
    events.filter (fun e => e.content = .overflow && e.start = time) = [] := by
  refine List.filter_eq_nil_iff.mpr fun e he hgap => ?_
  rw [Bool.and_eq_true, decide_eq_true_iff, decide_eq_true_iff] at hgap
  obtain ⟨x, hx, hdead, hstart⟩ := h e he hgap.1
  exact halone x hx hdead (hstart.symm.trans hgap.2)

theorem filter_gaps_before {time : Nat}
    (halone : ∀ x ∈ before ++ p :: after, m.lines.isDead x → x.time ≠ time) :
    (Phase.start.endedBy m.lines m.names (before ++ [p])).filter
      (fun e => e.content = .overflow && e.start = time) = [] := by
  refine filter_gaps_eq_nil halone ?_
  intro e he hcontent
  have hgap := Phase.start_of_overflow_mem_found (Phase.mem_found_of_mem_endedBy 0 he) hcontent
  obtain ⟨x, hx, hstart⟩ := hgap.resolve_left (fun h => by cases h)
  rw [List.mem_append, List.mem_singleton] at hx
  refine ⟨x, ?_, hstart⟩
  rw [List.mem_append, List.mem_cons]
  exact hx.imp_right .inl

theorem mem_events_iff {e : Event} {events : List Event} (he : e.ofBus) :
    e ∈ events ↔ e ∈ events.filter Event.ofBus := by
  rw [List.mem_filter, and_iff_left he]

/-! ### A dead bus at rest -/

def gapFrom (m : Monitor) (s : Sample) (after : List Sample) : Event where
  start := s.time
  stop := (m.lines.resumption s after).time
  content := .overflow

section Rest

variable (hrest : Phase.start.after m.lines (before ++ [p]) = .rest p)
  (hp : m.lines.isAlive p) (hs : m.lines.isDead s)

include hrest hp hs

/-- What is reported of the bus before a gap, the gap, and what is reported of it behind the
gap. -/
theorem filter_events_of_rest (after : List Sample) :
    ∃ later, (m.events (before ++ p :: s :: after)).filter Event.ofBus =
        Phase.start.endedBy m.lines m.names (before ++ [p]) ++ m.gapFrom s after :: later ∧
      (later = [] ∨ ∃ lost q rest, after = lost ++ q :: rest ∧ m.lines.resumption s after = q ∧
        later = (Phase.rest q).found m.lines m.names q.time rest) := by
  obtain ⟨later, hfound, hlater⟩ :=
    Phase.found_gap m.lines m.names s.time s after
  refine ⟨later, ?_, hlater⟩
  rw [filter_events, hrest, Phase.found, Phase.next_of_isDead hp hs, hfound]
  rfl

theorem gapFrom_mem_events : m.gapFrom s after ∈ m.events (before ++ p :: s :: after) := by
  obtain ⟨later, hevents, -⟩ := filter_events_of_rest hrest hp hs after
  rw [mem_events_iff rfl, hevents]
  exact List.mem_append_right _ (List.mem_cons_self ..)

theorem not_overlaps_gapFrom
    (hordered : (before ++ p :: s :: after).Pairwise (·.time ≤ ·.time))
    {e : Event} (he : e ∈ m.events (before ++ p :: s :: after))
    (haccess : e.category.isAccess) : ¬ e.Overlaps (m.gapFrom s after) := by
  obtain ⟨later, hevents, hlater⟩ := filter_events_of_rest hrest hp hs after
  rw [mem_events_iff (by rw [Event.ofBus, haccess]; rfl), hevents, List.mem_append,
    List.mem_cons] at he
  rintro ⟨hstart, hstop⟩
  rcases he with he | rfl | he
  · -- An access before the gap ends with a sample before it.
    obtain ⟨x, hx, hend⟩ := Phase.stop_of_mem_endedBy he
    have hle : x.time ≤ s.time := by
      have hsplit : before ++ p :: s :: after = (before ++ [p]) ++ s :: after := by simp
      rw [hsplit] at hordered
      exact (List.pairwise_append.mp hordered).2.2 x hx s (List.mem_cons_self ..)
    rw [hend] at hstop
    exact Nat.lt_irrefl _ (Nat.lt_of_lt_of_le hstop hle)
  · cases haccess
  · -- An access behind the gap begins when the bus rests again.
    rcases hlater with rfl | ⟨lost, q, rest, hafter, hq, rfl⟩
    · cases he
    · have hbehind : (q :: rest).Pairwise (·.time ≤ ·.time) := by
        have hsuffix := (List.pairwise_append.mp hordered).2.1
        have hbehind := (List.pairwise_cons.mp (List.pairwise_cons.mp hsuffix).2).2
        rw [hafter] at hbehind
        exact (List.pairwise_append.mp hbehind).2.1
      obtain ⟨hfirst, hbehind⟩ := List.pairwise_cons.mp hbehind
      have hle := Phase.since_le_start he hbehind hfirst
      rw [gapFrom, hq] at hstart
      exact Nat.lt_irrefl _ (Nat.lt_of_lt_of_le hstart hle)

theorem filter_gaps_of_rest
    (halone : ∀ x ∈ before ++ p :: after, m.lines.isDead x → x.time ≠ s.time) :
    (m.events (before ++ p :: s :: after)).filter
      (fun e => e.content = .overflow && e.start = s.time) = [m.gapFrom s after] := by
  obtain ⟨later, hevents, hlater⟩ := filter_events_of_rest hrest hp hs after
  have hbehind : later.filter (fun e => e.content = .overflow && e.start = s.time) = [] := by
    rcases hlater with rfl | ⟨lost, q, rest, hafter, -, rfl⟩
    · rfl
    · have hbehind : ∀ x ∈ after, m.lines.isDead x → x.time ≠ s.time := by
        intro x hx
        exact halone x (List.mem_append_right _ (List.mem_cons_of_mem _ hx))
      refine filter_gaps_eq_nil hbehind ?_
      intro e he hcontent
      obtain ⟨x, hx, hstart⟩ :=
        (Phase.start_of_overflow_mem_found he hcontent).resolve_left (fun h => by cases h)
      refine ⟨x, ?_, hstart⟩
      rw [hafter]
      exact List.mem_append_right _ (List.mem_cons_of_mem _ hx)
  rw [filter_gaps, hevents, List.filter_append, filter_gaps_before halone, List.nil_append,
    List.filter_cons_of_pos, hbehind]
  simp [gapFrom]

end Rest

/-! ### A dead bus in a pulse -/

section Pulse

variable {direction : Direction} {since : Nat}
  (hpulse : Phase.start.after m.lines (before ++ [p]) = .pulse direction since p)
  (hs : m.lines.isDead s)

include hpulse hs

theorem filter_events_of_pulse :
    (m.events (before ++ p :: s :: after)).filter Event.ofBus =
      Phase.start.endedBy m.lines m.names (before ++ [p]) ++
        (Phase.pulse direction since s).found m.lines m.names s.time after := by
  obtain ⟨hnext, hended⟩ := Phase.next_pulse_of_isDead m.names hs
  rw [filter_events, hpulse, Phase.found, hnext, hended]
  rfl

theorem filter_gaps_of_pulse
    (halone : ∀ x ∈ before ++ p :: after, m.lines.isDead x → x.time ≠ s.time) :
    (m.events (before ++ p :: s :: after)).filter
      (fun e => e.content = .overflow && e.start = s.time) = [] := by
  rw [filter_gaps, filter_events_of_pulse hpulse hs, List.filter_append,
    filter_gaps_before halone, List.nil_append]
  refine filter_gaps_eq_nil halone ?_
  intro e he hcontent
  obtain ⟨x, hx, hstart⟩ :=
    (Phase.start_of_overflow_mem_found he hcontent).resolve_left (fun h => by cases h)
  exact ⟨x, List.mem_append_right _ (List.mem_cons_of_mem _ hx), hstart⟩

theorem access_mem_events {lost rest : List Sample} {t : Sample}
    (hafter : after = lost ++ t :: rest)
    (hlost : ∀ x ∈ lost, x.level (m.lines.strobe direction) = false)
    (ht : t.level (m.lines.strobe direction)) :
    (m.lines.access direction since t.time (lost.getLastD s)).event m.names ∈
      m.events (before ++ p :: s :: after) := by
  rw [mem_events_iff (by rw [Event.ofBus, isAccess_event]; rfl),
    filter_events_of_pulse hpulse hs, hafter, Phase.found_pulse hlost ht]
  exact List.mem_append_right _ (List.mem_cons_self ..)

end Pulse

/-! ### The exact condition -/

/-- A dead bus after a live one begins a gap, whatever the bus was doing, but for a pulse that
is under way. Apart from that the gap is reported up to the sample that ends it, and no access
overlaps it; it is reported once, if it is the only dead bus of its time. In a pulse no gap is
reported, and the access goes on across the dead bus. -/
theorem gap_of_dead_bus (m : Monitor) {before after : List Sample} {p s : Sample}
    (hordered : (before ++ p :: s :: after).Pairwise (·.time ≤ ·.time))
    (hp : p.level m.lines.iow ∨ p.level m.lines.ior)
    (hs : ∀ offset ∈ [m.lines.iow, m.lines.ior] ++ m.lines.address ++ m.lines.data,
      s.level offset = false) :
    let events := m.events (before ++ p :: s :: after)
    let gap : Event :=
      { start := s.time, stop := (m.lines.resumption s after).time, content := .overflow }
    let phase := Phase.start.after m.lines (before ++ [p])
    (phase.isPulse = false → gap ∈ events ∧
      ∀ e ∈ events, e.category.isAccess → ¬ e.Overlaps gap) ∧
    ((∀ x ∈ before ++ p :: after, m.lines.isDead x → x.time ≠ s.time) →
      events.filter (fun e => e.content = .overflow && e.start = s.time) =
        if phase.isPulse then [] else [gap]) ∧
    (∀ direction since lost t rest, phase = .pulse direction since p →
      after = lost ++ t :: rest →
      (∀ x ∈ lost, x.level (m.lines.strobe direction) = false) →
      t.level (m.lines.strobe direction) →
      (m.lines.access direction since t.time (lost.getLastD s)).event m.names ∈ events) := by
  intro events gap phase
  have hdead : m.lines.isDead s := Lines.isDead_iff.mpr hs
  have halive : m.lines.isAlive p := by
    rw [Lines.isAlive, Bool.or_eq_true]
    exact hp
  -- A strobe is high at `p`, so no gap is under way when the dead bus comes.
  have hphase : phase = .rest p ∨ ∃ direction since, phase = .pulse direction since p := by
    have h := Phase.next_of_isAlive (Phase.start.after m.lines before) halive
    rwa [← Phase.after_concat] at h
  refine ⟨?_, ?_, ?_⟩
  · intro hnot
    have hrest : phase = .rest p := by
      refine hphase.resolve_right ?_
      rintro ⟨direction, since, hpulse⟩
      rw [hpulse] at hnot
      cases hnot
    refine ⟨gapFrom_mem_events hrest halive hdead, ?_⟩
    intro e he haccess
    exact not_overlaps_gapFrom hrest halive hdead hordered he haccess
  · intro halone
    rcases hphase with hrest | ⟨direction, since, hpulse⟩
    · rw [hrest]
      exact filter_gaps_of_rest hrest halive hdead halone
    · rw [hpulse]
      exact filter_gaps_of_pulse hpulse hdead halone
  · intro direction since lost t rest hpulse hafter hlost ht
    exact access_mem_events hpulse hdead hafter hlost ht

/-- The gap in a capture of an idle bus is reported, and nothing else. -/
theorem gap_of_dead_bus_idle :
    let events := Monitor.events { lines := .recorder } [⟨0, 3⟩, ⟨120, 0⟩, ⟨150, 3⟩]
    ⟨120, 150, .overflow⟩ ∈ events ∧
      events.filter (fun e => e.content = .overflow && e.start = 120) =
        [⟨120, 150, .overflow⟩] := by
  have h := @gap_of_dead_bus { lines := .recorder } [] [⟨150, 3⟩] ⟨0, 3⟩ ⟨120, 0⟩
    (by decide) (by decide) (by decide)
  exact ⟨(h.1 rfl).1, h.2.1 (by decide)⟩

/-- The command register is being written when the capture loses samples for a while: no gap is
reported, but an access to register 0 that spans it. -/
theorem pulse_swallows_gap :
    ∃ m, Monitor.ofPinout .flat = .ok m ∧
      m.events [⟨0, 0x3⟩, ⟨100, 0x205E⟩, ⟨120, 0⟩, ⟨150, 0x3⟩] =
        [⟨100, 150, .registerWrite 0x00 none 0x00⟩] := by
  refine ⟨{ lines := .recorder }, by rw [ofPinout, Lines.ofPinout_flat]; rfl, ?_⟩
  rw [events_eq]
  rfl

end Monitor

end AtaCapture.Ata
