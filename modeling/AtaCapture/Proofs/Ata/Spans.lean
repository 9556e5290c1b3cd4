import AtaCapture.Proofs.Ata.CommandSpans
import AtaCapture.Proofs.Ata.Looks
import AtaCapture.Proofs.Ata.Occurrences

/-!
Events in time. Each part of the activity has at most one span under way, and an access that
begins another one ends it first; on the bus an access or a gap begins when the one before it
is over. So the events of a family follow each other without overlap, between the first sample
and the last.
-/

namespace AtaCapture.Ata

/-- Events in a row between two times, none of which begins before the one in front of it
ends. -/
def Spans (lo hi : Nat) : List Event → Prop
  | [] => lo ≤ hi
  | e :: rest => lo ≤ e.start ∧ e.start ≤ e.stop ∧ Spans e.stop hi rest

namespace Spans

variable {lo mid hi : Nat} {a b events : List Event}

theorem append (ha : Spans lo mid a) (hb : Spans mid hi b) : Spans lo hi (a ++ b) := by
  induction a generalizing lo with
  | nil =>
      cases b with
      | nil => exact Nat.le_trans ha hb
      | cons e b => exact ⟨Nat.le_trans ha hb.1, hb.2⟩
  | cons e a ih => exact ⟨ha.1, ha.2.1, ih ha.2.2⟩

theorem singleton {e : Event} (hlo : lo ≤ e.start) (he : e.start ≤ e.stop)
    (hhi : e.stop ≤ hi) : Spans lo hi [e] :=
  ⟨hlo, he, hhi⟩

theorem start_le (h : Spans lo hi events) (hlower : mid ≤ lo) : Spans mid hi events := by
  cases events with
  | nil => exact Nat.le_trans hlower h
  | cons e events => exact ⟨Nat.le_trans hlower h.1, h.2⟩

theorem sublist (h : Spans lo hi b) (hsub : a.Sublist b) : Spans lo hi a := by
  induction hsub generalizing lo with
  | slnil => exact h
  | cons e hsub ih => exact ih (h.2.2.start_le (Nat.le_trans h.1 h.2.1))
  | cons_cons e hsub ih => exact ⟨h.1, h.2.1, ih h.2.2⟩

theorem of_mem (h : Spans lo hi events) {e : Event} (he : e ∈ events) :
    lo ≤ e.start ∧ e.start ≤ e.stop ∧ e.stop ≤ hi := by
  have hone := h.sublist (List.singleton_sublist.mpr he)
  exact ⟨hone.1, hone.2.1, hone.2.2⟩

theorem pairwise (h : Spans lo hi events) : events.Pairwise (·.stop ≤ ·.start) := by
  induction events generalizing lo with
  | nil => exact .nil
  | cons e events ih => exact .cons (fun f hf => (h.2.2.of_mem hf).1) (ih h.2.2)

theorem pairwise_start (h : Spans lo hi events) : events.Pairwise (·.start ≤ ·.start) :=
  h.pairwise.imp_of_mem fun he _ hnext => Nat.le_trans (h.of_mem he).2.1 hnext

end Spans

/-! ### One span under way -/

/-- What an access at `time` does to a part that has a span under way since `since`: nothing,
or the span ends with it, and maybe another begins. -/
inductive Turn (time : Nat) (since : Option Nat) : List Event → Option Nat → Prop
  | quiet : Turn time since [] since
  | ends {events : List Event} {since' : Option Nat}
      (hevents : events.map (fun e => (e.start, e.stop)) = (since.map (·, time)).toList)
      (hsince : since' = none ∨ since' = some time) : Turn time since events since'

theorem Turn.stop_eq {time : Nat} {since since' : Option Nat} {events : List Event}
    (h : Turn time since events since') : ∀ e ∈ events, e.stop = time := by
  cases h with
  | quiet => simp
  | ends hevents =>
      intro e he
      have hmem : (e.start, e.stop) ∈ (since.map (·, time)).toList :=
        hevents ▸ List.mem_map_of_mem he
      obtain ⟨start, -, hpair⟩ := Option.map_eq_some_iff.mp (Option.mem_toList.mp hmem)
      exact (congrArg Prod.snd hpair).symm

theorem turn_stepTransfer (t : Option OpenTransfer) (x : Access) :
    Turn x.start (t.map (·.start)) (stepTransfer t x).1
      ((stepTransfer t x).2.map (·.start)) := by
  rw [stepTransfer]
  cases hcontinues : t.filter fun t => x.isData && t.direction = x.direction with
  | none =>
      refine .ends ?_ ?_
      · cases t <;> rfl
      · cases x.isData
        · exact .inl rfl
        · exact .inr rfl
  | some u =>
      obtain ⟨rfl, hsame⟩ := Option.filter_eq_some_iff.mp hcontinues
      rw [(Bool.and_eq_true_iff.mp hsame).1]
      exact .quiet

theorem turn_stepPoll (p : Option OpenPoll) (x : Access) :
    Turn x.start (p.map (·.start)) (stepPoll p x).1 ((stepPoll p x).2.map (·.start)) := by
  unfold stepPoll
  split
  · split
    · exact .quiet
    · refine .ends ?_ (.inr rfl)
      cases p <;> rfl
  · split
    · refine .ends ?_ (.inl rfl)
      cases p <;> rfl
    · exact .quiet

theorem turn_stepSelection (s : Option OpenSelection) (x : Access) :
    Turn x.start (s.map (·.start)) (stepSelection s x).1
      ((stepSelection s x).2.map (·.start)) := by
  unfold stepSelection
  split
  · split
    · exact .quiet
    · refine .ends ?_ (.inr rfl)
      cases s <;> rfl
  · exact .quiet

def Commands.since (c : Commands) : Option Nat := (c.command.or c.packet).map (·.start)

theorem turn_commandsStep (names : Names) {c : Commands} (hc : c.Single) (x : Access) :
    Turn x.start c.since (c.step names x).1 (c.step names x).2.since := by
  by_cases hbreaks : x.endsPacket
  · rw [Commands.step_of_endsPacket hbreaks]
    refine .ends ?_ ?_
    · -- The command and the packet are not under way together, so only one of them ends.
      obtain ⟨_ | o, _ | p⟩ := c
      · rfl
      · rfl
      · rfl
      · rcases hc with hnone | hnone <;> cases hnone
    · cases x.writesCommand
      · exact .inl rfl
      · exact .inr rfl
  · rw [Bool.not_eq_true] at hbreaks
    cases hsends : c.command.any (·.sendsPacket x) with
    | false =>
        rw [Commands.step_of_quiet hbreaks hsends]
        exact .quiet
    | true =>
        obtain ⟨o, ho, hsends⟩ := (Option.any_eq_true ..).mp hsends
        rw [Commands.step_of_sendsPacket hbreaks ho hsends, Commands.since, ho]
        exact .ends rfl (.inr rfl)

namespace Activity

def since (a : Activity) : Family → Option Nat
  | .commands => a.commands.since
  | .transfers => a.transfer.map (·.start)
  | .polls => a.poll.map (·.start)
  | .selections => a.selection.map (·.start)
  | .bus => none

variable {names : Names} {a : Activity} {lo hi t : Nat} {xs : List Access} {f : Family}

theorem turn_step (names : Names) (ha : a.commands.Single) (x : Access) (f : Family) :
    Turn x.start (a.since f) (a.eventsOf names x f) ((a.step names x).2.since f) := by
  cases f with
  | commands => exact turn_commandsStep names ha x
  | transfers => exact turn_stepTransfer a.transfer x
  | polls => exact turn_stepPoll a.poll x
  | selections => exact turn_stepSelection a.selection x
  | bus => exact .quiet

/-- What an access ends, ends when it begins. -/
theorem stop_of_mem_step (ha : a.commands.Single) (x : Access) :
    ∀ e ∈ (a.step names x).1, e.stop = x.start := by
  intro e he
  obtain ⟨f, hfamily, -⟩ := family_step names a x e he
  refine (turn_step names ha x f).stop_eq e ?_
  rw [← filter_step_family]
  exact List.mem_filter.mpr ⟨he, decide_eq_true hfamily⟩

end Activity

/-! ### The bus -/

namespace Phase

variable {l : Lines} {names : Names} {phase : Phase} {s : Sample} {samples : List Sample}
  {stop : Nat}

theorem spans_ends (names : Names) (hsince : phase.since ≤ s.time) :
    Spans phase.since (phase.next l s).since ((phase.ends l s).toList.map (·.event names)) ∧
      (phase.next l s).since ≤ s.time := by
  have hnext := since_le_next l hsince
  refine ⟨?_, hnext.2⟩
  cases phase with
  | start => exact hnext.1
  | rest p => exact hnext.1
  | pulse direction since latched =>
      simp only [ends, next]
      split
      · exact .singleton (Nat.le_refl _) hsince (Nat.le_refl _)
      · exact Nat.le_refl since
  | gap since =>
      simp only [ends, next]
      split
      · exact .singleton (Nat.le_refl _) hsince (Nat.le_refl _)
      · exact Nat.le_refl since

/-- What happens in a row of samples is a row of spans, up to the end of the capture. -/
theorem spans_history (names : Names) (phase : Phase)
    (hordered : samples.Pairwise (·.time ≤ ·.time))
    (hsince : ∀ x ∈ samples, phase.since ≤ x.time) (hstop : ∀ x ∈ samples, x.time ≤ stop)
    (hle : phase.since ≤ stop) :
    Spans phase.since stop ((phase.history l stop samples).map (·.event names)) := by
  induction samples generalizing phase with
  | nil =>
      cases phase with
      | gap since => exact .singleton (Nat.le_refl _) hle (Nat.le_refl _)
      | start | rest | pulse => exact hle
  | cons s more ih =>
      obtain ⟨hfirst, hordered⟩ := List.pairwise_cons.mp hordered
      obtain ⟨hends, hnext⟩ := spans_ends (l := l) names (hsince s (List.mem_cons_self ..))
      rw [history_cons, List.map_append]
      refine hends.append (ih _ hordered ?_ ?_ ?_)
      · exact fun x hx => Nat.le_trans hnext (hfirst x hx)
      · exact fun x hx => hstop x (List.mem_cons_of_mem _ hx)
      · exact Nat.le_trans hnext (hstop s (List.mem_cons_self ..))

end Phase

/-! ### The control mux -/

namespace Automaton

variable {m : Monitor} {a : Account} {e : Event}

theorem family_of_mem_complete {x : Access} {s : Sample} (he : e ∈ (complete m a x s).1) :
    e.family ≠ none := by
  rcases List.mem_cons.mp he with rfl | he
  · exact Option.ne_none_iff_exists'.mpr ⟨_, Occurrence.family_event m.names (.access x)⟩
  · obtain ⟨f, hfamily, -⟩ := Activity.family_step m.names a.activity x e he
    exact Option.ne_none_iff_exists'.mpr ⟨f, hfamily⟩

theorem family_of_mem_cutOff {time : Nat} (he : e ∈ (cutOff a time).1) : e.family ≠ none := by
  unfold cutOff at he
  split at he
  · rw [List.mem_singleton.mp he]
    exact Option.some_ne_none _
  · cases he
  · cases he

end Automaton

namespace Monitor

variable {m : Monitor} {samples : List Sample}

/-- What happens in a capture in order is a row of spans between its first sample and its
last. -/
theorem spans_history (m : Monitor) (hordered : samples.Pairwise (·.time ≤ ·.time)) :
    Spans ((samples.head?.map Sample.time).getD 0) ((samples.getLast?.map Sample.time).getD 0)
      ((m.history samples).map (·.event m.names)) := by
  cases samples with
  | nil => exact Nat.le_refl 0
  | cons s rest =>
      have hlast := Sample.time_le_lastTime 0 hordered
      obtain ⟨hfirst, hordered⟩ := List.pairwise_cons.mp hordered
      exact Phase.spans_history m.names (.rest s) hordered hfirst
        (fun x hx => hlast x (List.mem_cons_of_mem _ hx)) (hlast s (List.mem_cons_self ..))

end Monitor

end AtaCapture.Ata
