import AtaCapture.Proofs.Ata.Accounting
import AtaCapture.Proofs.Ata.Naming

/-!
One capture under two sets of names. What happens on the bus, which commands and packets this
makes and what a run counts depend on the lines and the samples only, so two runs differ in
nothing but the names of their events. A packet is sent by a command with the packet opcode,
whatever that command is called.
-/

namespace AtaCapture.Ata

/-! ### Packets and the commands that send them -/

section

variable {names : Names} {stop : Nat} {e : Event}

theorem stop_of_packetOf {opcode : BitVec 8} {later : List Access}
    (h : packetOf names stop opcode later = some e) (start : Nat) :
    opcode = packetOpcode ∧ (commandSpan names stop start opcode later).stop = e.start := by
  rw [packetOf] at h
  split at h
  · next hopcode =>
    subst hopcode
    refine ⟨rfl, ?_⟩
    rw [commandSpan, firstStart, List.find?_eq_head?_dropWhile_not]
    split at h
    · next d rest hrest =>
      rw [hrest]
      split at h
      · obtain rfl := Option.some.inj h
        rfl
      · cases h
    · cases h
  · cases h

theorem command_of_mem_packetSpans {xs : List Access} (he : e ∈ packetSpans names stop xs) :
    ∃ c ∈ commandSpans names stop xs,
      c.content = .command packetOpcode (names.command packetOpcode) ∧ c.stop = e.start := by
  induction xs with
  | nil => cases he
  | cons x later ih =>
      rw [packetSpans] at he
      rw [commandSpans]
      split
      · next hwrites =>
        rw [if_pos hwrites, List.mem_append, Option.mem_toList] at he
        rcases he with he | he
        · obtain ⟨hopcode, hstop⟩ := stop_of_packetOf he x.start
          refine ⟨_, List.mem_cons_self .., ?_, hstop⟩
          rw [commandSpan, hopcode]
        · obtain ⟨c, hc, h⟩ := ih he
          exact ⟨c, List.mem_cons_of_mem _ hc, h⟩
      · next hwrites =>
        rw [if_neg hwrites] at he
        exact ih he

end

/-! ### Sinks that do not look at names -/

namespace Sink

/-- In states that `R` relates the sink does with an event as with the same under other
names. -/
def Overlooks {σ : Type} (sink : Sink σ) (other : Names) (R : σ → σ → Prop) : Prop :=
  ∀ state state' e, R state state' →
    (sink.put state e).1 = (sink.put state' (e.named other)).1 ∧
      R (sink.put state e).2 (sink.put state' (e.named other)).2

theorem overlooks_atMost (limit : Nat) (other : Names) :
    (atMost limit).Overlooks other fun taken renamed =>
      renamed = taken.map (·.named other) := by
  rintro taken _ e rfl
  simp only [atMost, Array.size_map]
  split
  · exact ⟨rfl, by rw [Array.map_push]⟩
  · exact ⟨rfl, rfl⟩

end Sink

namespace Monitor

variable (m : Monitor) (other : Names) (samples : List Sample)

/-- What is not of the bus is found in the timeline of the accesses. -/
theorem filter_events_category {c : Category} (hc : c.family ≠ .bus) :
    (m.events samples).filter (·.category = c) =
      (Activity.idle.timeline m.names (Sample.lastTime 0 samples)
        (Occurrence.accesses (m.history samples))).filter (·.category = c) := by
  rw [← filter_events_activity, List.filter_filter]
  refine List.filter_congr fun e _ => ?_
  cases h : decide (e.category = c) with
  | false => rfl
  | true => rw [Event.ofActivity_of_category hc h, Bool.and_self]

theorem filter_events_commands :
    (m.events samples).filter (·.category = .command) =
        commandSpans m.names (Sample.lastTime 0 samples)
          (Occurrence.accesses (m.history samples)) ∧
      (m.events samples).filter (·.category = .packet) =
        packetSpans m.names (Sample.lastTime 0 samples)
          (Occurrence.accesses (m.history samples)) := by
  rw [filter_events_category m samples (by decide),
    filter_events_category m samples (by decide), Activity.filter_timeline_command,
    Activity.filter_timeline_packet]
  exact ⟨rfl, rfl⟩

/-! ### Runs -/

theorem tally_named :
    (Automaton.run { m with names := other } samples).2 = (Automaton.run m samples).2 := by
  rw [Automaton.run, Automaton.run, Automaton.named_read]
  dsimp only
  rw [List.length_map]

variable {σ : Type} {sink : Sink σ} {R : σ → σ → Prop} {other} {state state' : σ}

/-- The same events under other names keep the states related, up to the event that is
refused. -/
theorem deliver_named (hsink : sink.Overlooks other R) (hstate : R state state')
    (offered : Nat) (events : List Event) :
    let given := deliver sink state offered events
    let renamed := deliver sink state' offered (events.map (·.named other))
    renamed.1 = given.1 ∧ R given.2.1 renamed.2.1 := by
  induction events generalizing state state' offered with
  | nil => exact ⟨rfl, hstate⟩
  | cons e rest ih =>
      have hput := hsink state state' e hstate
      rw [List.map_cons, deliver, deliver]
      generalize sink.put state e = result at hput ⊢
      generalize sink.put state' (e.named other) = result' at hput ⊢
      obtain ⟨fault, next⟩ := result
      obtain ⟨fault', next'⟩ := result'
      obtain ⟨rfl, hnext⟩ : fault = fault' ∧ R next next' := hput
      cases fault with
      | none => exact ih hnext (offered + 1)
      | some fault => exact ⟨rfl, hnext⟩

theorem run_named (m : Monitor) (hsink : sink.Overlooks other R) (hstate : R state state')
    (samples : List Sample) :
    let given := m.run sink state samples
    let renamed := { m with names := other }.run sink state' samples
    renamed.1 = given.1 ∧ R given.2 renamed.2 := by
  obtain ⟨hfault, hfinal⟩ := deliver_named hsink hstate 0 (m.events samples)
  rw [run_eq_deliver, run_eq_deliver, events_named m other, tally_named m other]
  generalize deliver sink state 0 (m.events samples) = given at hfault hfinal ⊢
  generalize deliver sink state' 0 ((m.events samples).map (·.named other)) =
    renamed at hfault hfinal ⊢
  obtain ⟨fault, final, total⟩ := given
  obtain ⟨fault', final', total'⟩ := renamed
  obtain rfl : fault' = fault := hfault
  cases fault' <;> exact ⟨rfl, hfinal⟩

/-- Runs with two sets of names tell the same tally and report the same events in the same
order, which differ in nothing but names, and each name is the entry for its code in the tables
of its run, or absent where these have none. The packets are those that the accesses make, each
behind a command with the opcode `0xA0`, under any names. A sink that does not look at names
ends both runs alike, with the tally or with one fault. -/
theorem run_of_names :
    let stop := Sample.lastTime 0 samples
    let accesses := Occurrence.accesses (m.history samples)
    ∃ tally, ∀ names other : Names,
      let run : Monitor := { m with names }
      let renamed : Monitor := { m with names := other }
      let events := run.events samples
      run.run .collect #[] samples = (.ok tally, events.toArray) ∧
      renamed.run .collect #[] samples = (.ok tally, (events.map (·.named other)).toArray) ∧
      (∀ e ∈ events, e.content.NamedBy names ∧ (e.named other).content.NamedBy other) ∧
      events.filter (·.category = .packet) = packetSpans names stop accesses ∧
      (∀ e ∈ events, e.category = .packet → ∃ c ∈ events,
        c.content = .command 0xA0 (names.command 0xA0) ∧ c.stop = e.start) ∧
      ∀ (σ : Type) (sink : Sink σ) (R : σ → σ → Prop) (state state' : σ),
        sink.Overlooks other R → R state state' →
        (renamed.run sink state' samples).1 = (run.run sink state samples).1 ∧
          R (run.run sink state samples).2 (renamed.run sink state' samples).2 := by
  intro stop accesses
  refine ⟨(Automaton.run m samples).2, fun names other => ?_⟩
  intro run renamed events
  have hcollect (names : Names) : { m with names }.run .collect #[] samples =
      (.ok (Automaton.run m samples).2, ({ m with names }.events samples).toArray) := by
    rw [run_collect, tally_named, events_eq]
    rfl
  have hpackets := (filter_events_commands run samples).2
  refine ⟨hcollect names, ?_, fun e he => ⟨namedBy_of_mem_events he, ?_⟩, hpackets,
    fun e he hpacket => ?_, fun σ sink R state state' hsink hstate => ?_⟩
  · rw [hcollect other]
    exact congrArg
      (fun events : List Event => (Except.ok (Automaton.run m samples).2, events.toArray))
      (events_named run other samples)
  · exact Content.named_eq_iff.mp (Content.named_named e.content)
  · have hspan : e ∈ packetSpans names stop accesses :=
      hpackets ▸ List.mem_filter.mpr ⟨he, decide_eq_true hpacket⟩
    obtain ⟨c, hc, h⟩ := command_of_mem_packetSpans hspan
    rw [show commandSpans names stop accesses = events.filter (·.category = .command) from
      (filter_events_commands run samples).1.symm] at hc
    exact ⟨c, List.mem_of_mem_filter hc, h⟩
  · exact run_named run hsink hstate samples

/-- A command is written and the status read, under tables that name their codes twice and
under empty ones. A sink for one event is full at the same event under both. -/
theorem run_of_names_tables :
    let m : Monitor := { lines := .recorder }
    let names : Names :=
      { Names.empty with
        written := .ofList [(0x17, "FIRST"), (0x17, "COMMAND")]
        readBack := .ofList [(0x17, "STATUS")]
        commands := .ofList [(0xEC, "IDENTIFY"), (0x20, "READ"), (0xEC, "IDENTIFY_DEVICE")] }
    let samples : List Sample :=
      [⟨0, 0x3⟩, ⟨100, 0xEC5E⟩, ⟨120, 0x3⟩, ⟨140, 0x505D⟩, ⟨160, 0x3⟩]
    let run : Monitor := { m with names }
    let renamed : Monitor := { m with names := .empty }
    run.events samples =
        [⟨100, 120, .registerWrite 0x17 (some "COMMAND") 0xEC⟩,
          ⟨140, 160, .registerRead 0x17 (some "STATUS") 0x50⟩,
          ⟨100, 160, .command 0xEC (some "IDENTIFY_DEVICE")⟩, ⟨140, 160, .status 0x50⟩] ∧
      (∀ e ∈ run.events samples, e.content.NamedBy names) ∧
      (renamed.run .collect #[] samples).2 =
        #[⟨100, 120, .registerWrite 0x17 none 0xEC⟩, ⟨140, 160, .registerRead 0x17 none 0x50⟩,
          ⟨100, 160, .command 0xEC none⟩, ⟨140, 160, .status 0x50⟩] ∧
      (renamed.run (Sink.atMost 1) #[] samples).1 =
        (run.run (Sink.atMost 1) #[] samples).1 := by
  intro m names samples run renamed
  have hevents : run.events samples =
      [⟨100, 120, .registerWrite 0x17 (some "COMMAND") 0xEC⟩,
        ⟨140, 160, .registerRead 0x17 (some "STATUS") 0x50⟩,
        ⟨100, 160, .command 0xEC (some "IDENTIFY_DEVICE")⟩, ⟨140, 160, .status 0x50⟩] := by
    rw [events_eq]
    decide +kernel
  obtain ⟨tally, htables⟩ := run_of_names m samples
  obtain ⟨-, hrenamed, hnames, -, -, hsinks⟩ := htables names .empty
  refine ⟨hevents, fun e he => (hnames e he).1, ?_, ?_⟩
  · calc (renamed.run .collect #[] samples).2
        = ((run.events samples).map (·.named .empty)).toArray := congrArg Prod.snd hrenamed
      _ = _ := by rw [hevents]; rfl
  · have hnone : (#[] : Array Event) = (#[] : Array Event).map (·.named .empty) :=
      Array.map_empty.symm
    exact (hsinks _ (Sink.atMost 1) _ _ _ (Sink.overlooks_atMost 1 .empty) hnone).1

end Monitor

end AtaCapture.Ata
