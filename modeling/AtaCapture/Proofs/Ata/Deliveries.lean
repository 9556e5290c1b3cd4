import AtaCapture.Proofs.Ata.Bus
import AtaCapture.Proofs.Output

/-!
What a sink is given. A run offers the events of a capture one by one, in order, and stops with
the first one that is refused, so a sink that refuses an event has taken just those before it.
A log on a device that runs full holds the beginning of the whole log, and counts the lines
that are whole.
-/

namespace AtaCapture

namespace Ata

/-! ### Taking events -/

namespace Sink

variable {σ : Type} {sink : Sink σ} {state taken final : σ} {offered : Nat}

/-- The sink takes some events one after the other, and is in the state `final` behind them. -/
def Takes (sink : Sink σ) (state : σ) : List Event → σ → Prop
  | [], final => state = final
  | e :: rest, final => ∃ next, sink.put state e = (none, next) ∧ sink.Takes next rest final

def counting (sink : Sink σ) : Sink (σ × Nat) where
  put state e := ((sink.put state.1 e).1, (sink.put state.1 e).2, state.2 + 1)

theorem deliver_of_takes {events : List Event} (h : sink.Takes state events final) :
    Monitor.deliver sink state offered events = (none, final, offered + events.length) := by
  induction events generalizing state offered with
  | nil =>
      obtain rfl := h
      rfl
  | cons e rest ih =>
      obtain ⟨next, hput, hrest⟩ := h
      rw [Monitor.deliver, hput]
      dsimp only
      rw [ih hrest, List.length_cons, Nat.add_assoc, Nat.add_comm 1]

theorem takes_of_deliver {events : List Event} {total : Nat}
    (h : Monitor.deliver sink state offered events = (none, final, total)) :
    sink.Takes state events final := by
  induction events generalizing state offered with
  | nil =>
      cases h
      rfl
  | cons e rest ih =>
      rw [Monitor.deliver] at h
      split at h
      · cases h
      · exact ⟨_, ‹_›, ih h⟩

/-- The event behind those that a sink takes is the last one it is offered if it refuses it. -/
theorem deliver_of_refuses {before behind : List Event} {e : Event} {fault : Fault}
    (h : sink.Takes state before taken) (hrefused : sink.put taken e = (some fault, final)) :
    Monitor.deliver sink state offered (before ++ e :: behind) =
      (some fault, final, offered + before.length + 1) := by
  rw [Monitor.deliver_append, deliver_of_takes h]
  dsimp only
  rw [Monitor.deliver, hrefused]

theorem takes_counting {events : List Event} (h : sink.Takes state events final)
    (calls : Nat) :
    sink.counting.Takes (state, calls) events (final, calls + events.length) := by
  induction events generalizing state calls with
  | nil =>
      obtain rfl := h
      rfl
  | cons e rest ih =>
      obtain ⟨next, hput, hrest⟩ := h
      refine ⟨(next, calls + 1), by simp [counting, hput], ?_⟩
      rw [List.length_cons, Nat.add_comm rest.length, ← Nat.add_assoc]
      exact ih hrest (calls + 1)

theorem takes_atMost {limit : Nat} {taken : Array Event} {events : List Event}
    (h : taken.size + events.length ≤ limit) :
    (atMost limit).Takes taken events (taken ++ events.toArray) := by
  induction events generalizing taken with
  | nil => simp [Takes]
  | cons e rest ih =>
      rw [List.length_cons] at h
      have hroom : taken.size < limit := by omega
      have hrest : (atMost limit).Takes (taken.push e) rest (taken.push e ++ rest.toArray) :=
        ih (by rw [Array.size_push]; omega)
      refine ⟨taken.push e, by simp [atMost, hroom], ?_⟩
      rwa [show taken ++ (e :: rest).toArray = taken.push e ++ rest.toArray by simp]

theorem put_atMost_of_full {limit : Nat} {taken : Array Event} (h : limit ≤ taken.size)
    (e : Event) : (atMost limit).put taken e = (some (.device "sink full"), taken) := by
  simp [atMost, Nat.not_lt.mpr h]

end Sink

/-! ### Logs -/

namespace Log

def text : List Event → ByteArray
  | [] => .empty
  | e :: rest => e.logLine.toUTF8 ++ text rest

/-- The number of events whose whole line lies within the first `size` bytes of the lines. -/
def wholeLines (size : Nat) (events : List Event) : Nat :=
  (List.range events.length).countP fun i => (text (events.take (i + 1))).size ≤ size

theorem wholeLines_cons (size : Nat) (e : Event) (rest : List Event) :
    wholeLines size (e :: rest) =
      if e.logLine.toUTF8.size ≤ size then wholeLines (size - e.logLine.toUTF8.size) rest + 1
      else 0 := by
  have hsize (i : Nat) : (text ((e :: rest).take (i + 1))).size =
      e.logLine.toUTF8.size + (text (rest.take i)).size := by
    rw [List.take_succ_cons, text, ByteArray.size_append]
  simp only [wholeLines, List.length_cons, List.range_succ_eq_map, List.countP_cons,
    List.countP_map, hsize, Function.comp_def]
  generalize e.logLine.toUTF8 = line
  by_cases hfits : line.size ≤ size
  · simp [text, hfits, Nat.le_sub_iff_add_le' hfits]
  · have hnone (n : Nat) : ¬ line.size + n ≤ size := by omega
    simp [hnone, hfits]

theorem takes_unlimited (held : ByteArray) (count : Nat) (events : List Event) :
    Log.sink.Takes { output := { held }, count } events
      { output := { held := held ++ text events }, count := count + events.length } := by
  induction events generalizing held count with
  | nil => simp [Sink.Takes, text]
  | cons e rest ih =>
      refine ⟨_, rfl, ?_⟩
      rw [text, ← ByteArray.append_assoc, List.length_cons, Nat.add_comm rest.length,
        ← Nat.add_assoc]
      exact ih (held ++ e.logLine.toUTF8) (count + 1)

section

variable {limit : Nat} {held : ByteArray}

theorem put_of_fits {e : Event} (h : held.size + e.logLine.toUTF8.size ≤ limit) (count : Nat) :
    Log.sink.put { output := { held, limit := some limit }, count } e =
      (none, { output := { held := held ++ e.logLine.toUTF8, limit := some limit }
               count := count + 1 }) := by
  simp only [sink, put, Output.write_of_fits h]

theorem put_of_not_fits {e : Event} (h : limit < held.size + e.logLine.toUTF8.size)
    (count : Nat) :
    Log.sink.put { output := { held, limit := some limit }, count } e =
      (some (.device Output.full),
        { output := { held := held ++ e.logLine.toUTF8.extract 0 (limit - held.size) }
          count }) := by
  simp only [sink, put, Output.write_of_not_fits h]

theorem deliver_limited (h : held.size ≤ limit) (count offered : Nat) (events : List Event) :
    Monitor.deliver Log.sink { output := { held, limit := some limit }, count } offered
        events =
      if held.size + (text events).size ≤ limit then
        (none, { output := { held := held ++ text events, limit := some limit }
                 count := count + events.length }, offered + events.length)
      else
        (some (.device Output.full),
          { output := { held := (held ++ text events).extract 0 limit }
            count := count + wholeLines (limit - held.size) events },
          offered + wholeLines (limit - held.size) events + 1) := by
  induction events generalizing held count offered with
  | nil => simp [Monitor.deliver, text, h]
  | cons e rest ih =>
      rw [Monitor.deliver, wholeLines_cons, text]
      by_cases hfits : held.size + e.logLine.toUTF8.size ≤ limit
      · have hline : e.logLine.toUTF8.size ≤ limit - held.size := by omega
        have hsize : (held ++ e.logLine.toUTF8).size ≤ limit := by
          rw [ByteArray.size_append]
          exact hfits
        rw [put_of_fits hfits, if_pos hline]
        dsimp only
        rw [ih hsize, ByteArray.size_append, ByteArray.size_append, ByteArray.append_assoc,
          Nat.add_assoc held.size, Nat.sub_sub, List.length_cons]
        split <;> simp <;> omega
      · -- The first line that does not fit is the last one offered, and the device holds a
        -- part of it.
        rw [Nat.not_le] at hfits
        have hline : ¬ e.logLine.toUTF8.size ≤ limit - held.size := by omega
        have hlong : ¬ held.size + (e.logLine.toUTF8 ++ text rest).size ≤ limit := by
          rw [ByteArray.size_append]
          omega
        rw [put_of_not_fits hfits, if_neg hline, if_neg hlong, Output.append_extract h hfits]
        rfl

end

end Log

namespace Monitor

variable {m : Monitor} {samples : List Sample} {σ : Type} {sink : Sink σ}
  {state taken final : σ}

/-- A run offers its sink the events of the capture, and nothing else. -/
theorem run_eq_deliver (m : Monitor) (sink : Sink σ) (state : σ) (samples : List Sample) :
    m.run sink state samples =
      match deliver sink state 0 (m.events samples) with
      | (some fault, state, _) => (.error fault, state)
      | (none, state, _) => (.ok (Automaton.run m samples).2, state) := by
  rw [run_eq_settle, settle_zero, events_eq]
  rfl

theorem run_of_takes (h : sink.Takes state (m.events samples) final) :
    m.run sink state samples = (.ok (Automaton.run m samples).2, final) := by
  rw [run_eq_deliver, Sink.deliver_of_takes h]

theorem takes_of_run {tally : Tally} (h : m.run sink state samples = (.ok tally, final)) :
    sink.Takes state (m.events samples) final ∧ tally = (Automaton.run m samples).2 := by
  rw [run_eq_deliver] at h
  split at h
  · cases h
  · rename_i hdeliver
    obtain ⟨htally, rfl⟩ := Prod.mk.inj h
    exact ⟨Sink.takes_of_deliver hdeliver, (Except.ok.inj htally).symm⟩

theorem run_of_refuses {n : Nat} {e : Event} {fault : Fault}
    (h : sink.Takes state ((m.events samples).take n) taken)
    (he : (m.events samples)[n]? = some e)
    (hrefused : sink.put taken e = (some fault, final)) :
    m.run sink state samples = (.error fault, final) := by
  rw [run_eq_deliver]
  generalize m.events samples = events at h he
  obtain ⟨hn, rfl⟩ := List.getElem?_eq_some_iff.mp he
  have hsplit : events = events.take n ++ events[n] :: events.drop (n + 1) := by
    rw [← List.drop_eq_getElem_cons hn, List.take_append_drop]
  rw [hsplit, Sink.deliver_of_refuses h hrefused]

theorem run_atMost (m : Monitor) (samples : List Sample) (limit : Nat) :
    m.run (Sink.atMost limit).counting (#[], 0) samples =
      if (m.events samples).length ≤ limit then
        (.ok (Automaton.run m samples).2,
          ((m.events samples).toArray, (m.events samples).length))
      else
        (.error (.device "sink full"),
          (((m.events samples).take limit).toArray, limit + 1)) := by
  have htakes {events : List Event} (hfits : events.length ≤ limit) :
      (Sink.atMost limit).counting.Takes (#[], 0) events (events.toArray, events.length) := by
    have hall : (Sink.atMost limit).Takes #[] events (#[] ++ events.toArray) :=
      Sink.takes_atMost (by simpa using hfits)
    simpa using Sink.takes_counting hall 0
  by_cases hfits : (m.events samples).length ≤ limit
  · rw [if_pos hfits, run_of_takes (htakes hfits)]
  · rw [if_neg hfits]
    have hlimit : limit < (m.events samples).length := Nat.not_le.mp hfits
    have hlength : ((m.events samples).take limit).length = limit := by
      rw [List.length_take, Nat.min_eq_left (Nat.le_of_lt hlimit)]
    refine run_of_refuses (htakes (Nat.le_of_eq hlength)) (List.getElem?_eq_getElem hlimit) ?_
    rw [hlength]
    simp only [Sink.counting]
    rw [Sink.put_atMost_of_full (by simp [hlength])]

theorem run_log (m : Monitor) (samples : List Sample) :
    m.run Log.sink { output := .unlimited } samples = (.ok (Automaton.run m samples).2,
      { output := { held := Log.text (m.events samples) }
        count := (m.events samples).length }) := by
  have htakes := Log.takes_unlimited .empty 0 (m.events samples)
  rw [ByteArray.empty_append, Nat.zero_add] at htakes
  exact run_of_takes htakes

theorem run_log_limited (m : Monitor) (samples : List Sample) (limit : Nat) :
    m.run Log.sink { output := .limited limit } samples =
      if (Log.text (m.events samples)).size ≤ limit then
        (.ok (Automaton.run m samples).2,
          { output := { held := Log.text (m.events samples), limit := some limit }
            count := (m.events samples).length })
      else
        (.error (.device Output.full),
          { output := { held := (Log.text (m.events samples)).extract 0 limit }
            count := Log.wholeLines limit (m.events samples) }) := by
  have hempty : ByteArray.empty.size ≤ limit := Nat.zero_le limit
  have hdeliver := Log.deliver_limited hempty 0 0 (m.events samples)
  simp only [ByteArray.size_empty, ByteArray.empty_append, Nat.zero_add, Nat.sub_zero]
      at hdeliver
  rw [run_eq_deliver, Output.limited, hdeliver]
  by_cases hfits : (Log.text (m.events samples)).size ≤ limit
  · simp only [if_pos hfits]
  · simp only [if_neg hfits]

/-- A sink that takes all events of a capture gets them as any other does, and the run tells
the same tally. A sink that takes the first `n` of them and refuses the next one is left in the
state in which that refusal leaves it, and the run tells its fault; so a sink that takes `n`
events is called once more and not again. A log on a device that holds `k` bytes is the whole
log if that is no longer; or else it is its first `k` bytes, it counts the events whose whole
lines these are, and the run tells that the device is full. -/
theorem run_of_refusal (m : Monitor) (samples : List Sample) :
    let events := m.events samples
    ∃ tally, m.run .collect #[] samples = (.ok tally, events.toArray) ∧
      (∀ (σ : Type) (sink : Sink σ) (state final : σ), sink.Takes state events final →
        m.run sink state samples = (.ok tally, final)) ∧
      (∀ (σ : Type) (sink : Sink σ) (state taken final : σ) (n : Nat) (e : Event)
      (fault : Fault), sink.Takes state (events.take n) taken → events[n]? = some e →
        sink.put taken e = (some fault, final) →
        m.run sink state samples = (.error fault, final)) ∧
      (∀ n, m.run (Sink.atMost n).counting (#[], 0) samples =
        if events.length ≤ n then (.ok tally, (events.toArray, events.length))
        else (.error (.device "sink full"), ((events.take n).toArray, n + 1))) ∧
      m.run Log.sink { output := .unlimited } samples =
        (.ok tally, { output := { held := Log.text events }, count := events.length }) ∧
      ∀ k, m.run Log.sink { output := .limited k } samples =
        if (Log.text events).size ≤ k then
          (.ok tally,
            { output := { held := Log.text events, limit := some k }, count := events.length })
        else
          (.error (.device Output.full),
            { output := { held := (Log.text events).extract 0 k }
              count := (List.range events.length).countP fun i =>
                (Log.text (events.take (i + 1))).size ≤ k }) := by
  intro events
  have hcollect :
      m.run .collect #[] samples = (.ok (Automaton.run m samples).2, events.toArray) := by
    rw [run_collect, show events = (Automaton.run m samples).1 from events_eq m samples]
  refine ⟨(Automaton.run m samples).2, hcollect, fun _ _ _ _ => run_of_takes,
    fun _ _ _ _ _ _ _ _ => run_of_refuses, run_atMost m samples,
    run_log m samples, run_log_limited m samples⟩

/-- A selection that ends with the capture. A sink that takes one event gets the write that
selects and refuses the selection, and on a device of 60 bytes only the line of that write is
whole. -/
theorem run_of_refusal_selection :
    let m : Monitor := { lines := .recorder }
    let samples : List Sample := [⟨0, 3⟩, ⟨30, 0x105A⟩, ⟨40, 0x105B⟩]
    let select : Event := ⟨30, 40, .registerWrite 0x16 (some "DEVICE") 0x10⟩
    let selection : Event := ⟨30, 40, .selection 1⟩
    m.events samples = [select, selection] ∧
    ((Sink.atMost 2).Takes #[] [select, selection] #[select, selection] ∧
      ∃ tally, m.run (Sink.atMost 2) #[] samples = (.ok tally, #[select, selection])) ∧
    ((Sink.atMost 1).Takes #[] [select] #[select] ∧
      (Sink.atMost 1).put #[select] selection = (some (.device "sink full"), #[select]) ∧
      m.run (Sink.atMost 1) #[] samples = (.error (.device "sink full"), #[select])) ∧
    (m.run Log.sink { output := .limited 60 } samples).2.count = 1 := by
  intro m samples select selection
  have hevents : m.events samples = [select, selection] := by
    rw [events_eq]
    decide +kernel
  obtain ⟨tally, -, htakes, hrefuses, -, hlog, hlimited⟩ := run_of_refusal m samples
  rw [hevents] at htakes hrefuses hlimited
  have hboth : (Sink.atMost 2).Takes #[] [select, selection] #[select, selection] :=
    Sink.takes_atMost (by decide)
  have hone : (Sink.atMost 1).Takes #[] [select] #[select] := Sink.takes_atMost (by decide)
  have hput : (Sink.atMost 1).put #[select] selection =
      (some (.device "sink full"), #[select]) :=
    Sink.put_atMost_of_full (by decide) selection
  refine ⟨hevents, ⟨hboth, tally, htakes _ _ _ _ hboth⟩,
    ⟨hone, hput, hrefuses _ _ _ _ _ 1 selection _ hone rfl hput⟩, ?_⟩
  have hlong : ¬ (Log.text [select, selection]).size ≤ 60 := by decide +kernel
  rw [hlimited 60, if_neg hlong]
  decide +kernel

end Monitor

end Ata

end AtaCapture
