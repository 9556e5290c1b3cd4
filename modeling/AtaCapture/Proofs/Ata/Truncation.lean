import AtaCapture.Proofs.Ata.Levels
import AtaCapture.Proofs.Ata.Spans
import AtaCapture.Proofs.Word.Truncation

/-!
Captures that are cut off. The sample that marks the end of a capture shows the same levels as
the one before it, so nothing on the bus ends with it. What is under way at the register
interface ends where an access begins, or else with the capture. So whatever is over before a
cut is reported the same when the capture goes on.
-/

namespace AtaCapture.Ata

/-! ### Nothing ends with a capture -/

namespace Phase

variable {l : Lines} {phase : Phase} {samples : List Sample}

theorem behind_after {p : Sample} (hlast : samples.getLast? = some p) :
    (phase.after l samples).Behind l p := by
  obtain ⟨before, rfl⟩ := List.getLast?_eq_some_iff.mp hlast
  rw [after, List.foldl_append]
  exact behind_next ..

/-- The sample that samples are made to last with ends nothing. -/
theorem occurrences_heldUntil (l : Lines) (samples : List Sample) (stop : Nat) :
    Phase.start.occurrences l (Sample.heldUntil samples stop) =
      Phase.start.occurrences l samples := by
  have hlast : (Phase.start.after l samples).ends l
      { samples.getLast?.getD { time := 0, levels := 0 } with time := stop } = none := by
    cases h : samples.getLast? with
    | none =>
        -- Where nothing is known, the marking sample is the first one of the capture.
        rw [List.getLast?_eq_none_iff.mp h]
        rfl
    | some p => exact ends_eq_none (behind_after h) rfl rfl
  rw [Sample.heldUntil]
  split
  · rw [occurrences_append, occurrences, hlast]
    exact List.append_nil _
  · rfl

end Phase

/-! ### Only what is over ends -/

/-- Of events in the order in which they end, those that end before a time come first. -/
theorem prefix_filter_stop {events : List Event} (h : events.Pairwise (·.stop ≤ ·.stop))
    (time : Nat) : events.filter (·.stop < time) <+: events := by
  induction events with
  | nil => exact List.prefix_rfl
  | cons e events ih =>
      obtain ⟨hfirst, hrest⟩ := List.pairwise_cons.mp h
      by_cases he : e.stop < time
      · rw [List.filter_cons_of_pos (by simpa using he)]
        exact (List.prefix_cons_inj e).mpr (ih hrest)
      · have hnone : events.filter (·.stop < time) = [] := by
          refine List.filter_eq_nil_iff.mpr fun f hf hlt => he ?_
          exact Nat.lt_of_le_of_lt (hfirst f hf) (of_decide_eq_true hlt)
        rw [List.filter_cons_of_neg (by simpa using he), hnone]
        exact List.nil_prefix

namespace Activity

variable {names : Names} {a : Activity} {xs : List Access}

theorem feed_append (names : Names) (a : Activity) (xs ys : List Access) :
    feed (step names) a (xs ++ ys) =
      feed (step names) a xs ++ feed (step names) (a.after names xs) ys := by
  induction xs generalizing a with
  | nil => rfl
  | cons x xs ih =>
      rw [List.cons_append, feed, feed, ih, List.append_assoc]
      rfl

theorem single_after (ha : a.commands.Single) (names : Names) (xs : List Access) :
    (a.after names xs).commands.Single := by
  induction xs generalizing a with
  | nil => exact ha
  | cons x xs ih => exact ih (ha.step names x)

theorem stop_of_mem_feed (ha : a.commands.Single) :
    ∀ e ∈ feed (step names) a xs, ∃ x ∈ xs, e.stop = x.start := by
  induction xs generalizing a with
  | nil => simp [feed]
  | cons x xs ih =>
      intro e he
      rcases List.mem_append.mp he with he | he
      · exact ⟨x, List.mem_cons_self .., stop_of_mem_step ha x e he⟩
      · obtain ⟨y, hy, hstop⟩ := ih (ha.step names x) e he
        exact ⟨y, List.mem_cons_of_mem x hy, hstop⟩

theorem pairwise_stop_feed (ha : a.commands.Single) (hxs : xs.Pairwise (·.start ≤ ·.start)) :
    (feed (step names) a xs).Pairwise (·.stop ≤ ·.stop) := by
  induction xs generalizing a with
  | nil => exact .nil
  | cons x xs ih =>
      obtain ⟨hfirst, hrest⟩ := List.pairwise_cons.mp hxs
      have hx : ∀ e ∈ (a.step names x).1, e.stop = x.start := stop_of_mem_step ha x
      refine List.pairwise_append.mpr ⟨?_, ih (ha.step names x) hrest, ?_⟩
      · refine List.pairwise_of_forall_mem_list fun e he f hf => ?_
        exact Nat.le_of_eq ((hx e he).trans (hx f hf).symm)
      · intro e he f hf
        obtain ⟨y, hy, hstop⟩ := stop_of_mem_feed (ha.step names x) f hf
        rw [hx e he, hstop]
        exact hfirst y hy

/-- What ends before a timeline does, ends so in every timeline that goes on from there. -/
theorem prefix_timeline (names : Names) (hxs : xs.Pairwise (·.start ≤ ·.start))
    (ys : List Access) (stop stop' : Nat) :
    (idle.timeline names stop xs).filter (·.stop < stop) <+:
      idle.timeline names stop' (xs ++ ys) := by
  -- What the end of the capture closes ends with it, and not before.
  have hbye : ((feed (step names) (idle.after names xs)
      [(idle.after names xs).farewell stop]).filter (·.stop < stop)) = [] := by
    refine List.filter_eq_nil_iff.mpr fun e he hlt => ?_
    obtain ⟨x, hx, hstop⟩ := stop_of_mem_feed (single_after (.inl rfl) names xs) e he
    rw [hstop, List.mem_singleton.mp hx] at hlt
    exact Nat.lt_irrefl _ (of_decide_eq_true hlt)
  rw [timeline_eq_feed, timeline_eq_feed, feed_append, List.filter_append, hbye,
    List.append_nil, List.append_assoc, feed_append]
  exact (prefix_filter_stop (pairwise_stop_feed (.inl rfl) hxs) stop).trans
    (List.prefix_append ..)

end Activity

/-! ### Whole captures -/

namespace Monitor

/-- What has been accessed up to a cut is accessed as well if the capture goes on. -/
theorem prefix_accesses (m : Monitor) (l : Layout) (p q : List UInt8) :
    Occurrence.accesses (m.history (Replay.samplesOfBytes l p)) <+:
      Occurrence.accesses (m.history (Replay.samplesOfBytes l (p ++ q))) := by
  obtain ⟨more, hmore⟩ := Replay.prefix_known l p q
  rw [history, history, Phase.accesses_history, Phase.accesses_history, ← hmore,
    Phase.occurrences_append, Occurrence.accesses_append, Replay.samplesOfBytes_eq,
    Phase.occurrences_heldUntil]
  exact List.prefix_append ..

/-- A capture that is cut off anywhere, be it within a word, is reported as its beginning: its
accesses are the first ones of the whole capture, and the commands, packets, transfers, polls
and selections that end before it does are the first ones there. -/
theorem events_of_beginning (m : Monitor) (l : Layout) (p q : List UInt8) :
    let short := Replay.samplesOfBytes l p
    let long := Replay.samplesOfBytes l (p ++ q)
    (m.events short).filter (·.category.isAccess) <+:
        (m.events long).filter (·.category.isAccess) ∧
      ∃ tally, (m.run .collect #[] short).1 = .ok tally ∧
        ((m.events short).filter Event.ofActivity).filter (·.stop < tally.endTime) <+:
          (m.events long).filter Event.ofActivity := by
  intro short long
  obtain ⟨more, hmore⟩ := m.prefix_accesses l p q
  refine ⟨?_, (Automaton.run m short).2, by rw [run_collect], ?_⟩
  · rw [filter_events_access, filter_events_access]
    exact (m.prefix_accesses l p q).map _
  · have hstarts : (Occurrence.accesses (m.history short)).Pairwise (·.start ≤ ·.start) := by
      have hspans := (m.spans_history (Replay.pairwise_samplesOfBytes l p)).sublist
        (Occurrence.sublist_accesses ..)
      have hevents := hspans.pairwise_start
      rwa [List.pairwise_map] at hevents
    rw [filter_events_activity, filter_events_activity, (tally_run m short).2.2.2, ← hmore]
    exact Activity.prefix_timeline m.names hstarts more ..

end Monitor

end AtaCapture.Ata
