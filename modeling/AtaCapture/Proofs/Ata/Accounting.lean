import AtaCapture.Proofs.Ata.Deliveries
import AtaCapture.Proofs.Ata.Endings
import AtaCapture.Proofs.Ata.Spans

/-!
The accounts of a run. What is under way at the register interface is owed, and it is paid when
it ends: a command for every write to the command register, a word of a transfer for every
access to the data register. So the events balance behind every access together with what is
under way, and at the end of a capture, where nothing is, they balance alone. The tally counts
what the events show.
-/

namespace AtaCapture.Ata

/-! ### What an event counts for -/

namespace Event

def writesTo (address : BitVec 8) (e : Event) : Bool :=
  match e.content with
  | .registerWrite a .. => a = address
  | _ => false

def carriesWord (e : Event) : Bool :=
  match e.content with
  | .dataWrite _ | .dataRead _ => true
  | _ => false

def words (e : Event) : Nat :=
  match e.content with
  | .transfer _ words => words
  | _ => 0

def transferred : List Event → Nat
  | [] => 0
  | e :: rest => e.words + transferred rest

def isMuxWrite (e : Event) : Bool :=
  match e.content with
  | .muxWrite _ => true
  | _ => false

def awaitsPacket (e : Event) : Bool :=
  match e.content with
  | .command opcode _ => opcode = packetOpcode
  | _ => false

theorem isMuxWrite_eq (e : Event) : e.isMuxWrite = e.family.isNone := by
  obtain ⟨_, _, content⟩ := e
  cases content <;> rfl

theorem isAccess_of_writesTo {address : BitVec 8} {e : Event} (h : e.writesTo address) :
    e.category.isAccess := by
  obtain ⟨_, _, content⟩ := e
  cases content with
  | registerWrite => rfl
  | _ => cases h

theorem isAccess_of_carriesWord {e : Event} (h : e.carriesWord) : e.category.isAccess := by
  obtain ⟨_, _, content⟩ := e
  cases content with
  | dataWrite | dataRead => rfl
  | _ => cases h

theorem category_of_awaitsPacket {e : Event} (h : e.awaitsPacket) :
    decide (e.category = .command) := by
  obtain ⟨_, _, content⟩ := e
  cases content with
  | command => rfl
  | _ => cases h

theorem ofActivity_of_category {e : Event} {c : Category} (hc : c.family ≠ .bus)
    (h : decide (e.category = c)) : e.ofActivity := by
  obtain rfl := of_decide_eq_true h
  obtain ⟨_, _, content⟩ := e
  cases content <;> first | rfl | exact absurd rfl hc

theorem words_eq_zero {e : Event} (h : e.family ≠ some .transfers) : e.words = 0 := by
  obtain ⟨_, _, content⟩ := e
  cases content with
  | transfer => exact absurd rfl h
  | _ => rfl

theorem countP_filter_of_imp {p q : Event → Bool} (h : ∀ e, p e → q e) (events : List Event) :
    (events.filter q).countP p = events.countP p := by
  rw [List.countP_filter]
  refine List.countP_congr fun e _ => ?_
  rw [Bool.and_eq_true]
  exact ⟨And.left, fun hp => ⟨hp, h e hp⟩⟩

theorem transferred_append (a b : List Event) :
    transferred (a ++ b) = transferred a + transferred b := by
  induction a with
  | nil => exact (Nat.zero_add _).symm
  | cons e a ih => rw [List.cons_append, transferred, ih, transferred, Nat.add_assoc]

theorem transferred_filter {q : Event → Bool} (h : ∀ e, e.family = some .transfers → q e)
    (events : List Event) : transferred (events.filter q) = transferred events := by
  induction events with
  | nil => rfl
  | cons e events ih =>
      rw [transferred]
      cases hq : q e with
      | true => rw [List.filter_cons_of_pos hq, transferred, ih]
      | false =>
          have hzero : e.words = 0 := words_eq_zero fun hfamily => by simp [h e hfamily] at hq
          rw [List.filter_cons_of_neg (by simp [hq]), ih, hzero, Nat.zero_add]

end Event

namespace Access

variable (names : Names) (x : Access)

theorem writesTo_event {address : BitVec 8} (h : address ≠ Register.data) :
    (x.event names).writesTo address = (x.direction = .write && x.address = address) := by
  obtain ⟨_, _, direction, place, _⟩ := x
  by_cases hdata : place = Register.data
  · cases direction <;> simp [event, Event.writesTo, isData, hdata, h.symm]
  · cases direction <;> simp [event, Event.writesTo, isData, hdata]

theorem carriesWord_event : (x.event names).carriesWord = x.isData := by
  obtain ⟨_, _, direction, _, _⟩ := x
  cases hdata : isData _ <;> cases direction <;> simp [event, Event.carriesWord, hdata]

end Access

/-! ### Commands and packets -/

section

variable (names : Names) (stop : Nat) (xs : List Access)

theorem length_commandSpans :
    (commandSpans names stop xs).length = xs.countP (·.writesCommand) := by
  induction xs with
  | nil => rfl
  | cons x xs ih =>
      rw [commandSpans, List.countP_cons, ← ih]
      split <;> rfl

/-- At most one packet follows a command, and only one that asks for it. -/
theorem length_packetSpans_le :
    (packetSpans names stop xs).length ≤
      (commandSpans names stop xs).countP Event.awaitsPacket := by
  induction xs with
  | nil => exact Nat.le_refl _
  | cons x xs ih =>
      rw [packetSpans, commandSpans]
      split
      · have hpacket : (packetOf names stop x.low xs).toList.length ≤
            if (commandSpan names stop x.start x.low xs).awaitsPacket then 1 else 0 := by
          by_cases hopcode : x.low = packetOpcode
          · simp [commandSpan, Event.awaitsPacket, hopcode]
          · simp [packetOf, hopcode]
        rw [List.length_append, List.countP_cons]
        omega
      · exact ih

end

/-! ### What is owed -/

namespace Activity

variable (names : Names) (a : Activity) (x : Access)

def wordsOpen (a : Activity) : Nat := a.transfer.elim 0 (·.words)

/-- Each word of data is added to what is under way, until the transfer ends. -/
theorem words_step :
    Event.transferred (a.step names x).1 + (a.step names x).2.wordsOpen =
      a.wordsOpen + if x.isData then 1 else 0 := by
  rw [← Event.transferred_filter (fun _ => decide_eq_true), filter_step_family]
  show Event.transferred (stepTransfer a.transfer x).1 +
    (stepTransfer a.transfer x).2.elim 0 (·.words) = _
  rw [wordsOpen]
  cases a.transfer with
  | none =>
      rw [stepTransfer_none]
      split <;> rfl
  | some t =>
      rw [stepTransfer_some, OpenTransfer.endedBy]
      cases hdata : x.isData with
      | false => simp [OpenTransfer.event, Event.transferred, Event.words]
      | true =>
          by_cases hsame : t.direction = x.direction <;>
            simp [OpenTransfer.event, Event.transferred, Event.words, hsame]

theorem words_timeline (stop : Nat) (xs : List Access) :
    Event.transferred (a.timeline names stop xs) = a.wordsOpen + xs.countP (·.isData) := by
  induction xs generalizing a with
  | nil =>
      -- The selection at the end is no access to the data register, so it ends the transfer.
      have hnone : (a.step names (a.farewell stop)).2.wordsOpen = 0 := by
        show (stepTransfer a.transfer (a.farewell stop)).2.elim 0 (·.words) = 0
        cases a.transfer <;> rfl
      have hstep := words_step names a (a.farewell stop)
      rw [hnone] at hstep
      exact hstep
  | cons x xs ih =>
      have hstep := words_step names a x
      show Event.transferred
          ((a.step names x).1 ++ (a.step names x).2.timeline names stop xs) = _
      rw [Event.transferred_append, ih, List.countP_cons]
      omega

theorem countP_step_selection :
    (a.step names x).1.countP (·.category = .selection) =
      (stepSelection a.selection x).1.length := by
  have hfamily (e : Event) (h : decide (e.category = .selection)) :
      decide (e.family = some .selections) := by
    have hselection := of_decide_eq_true h
    rw [Event.family_eq (by rw [hselection]; decide), hselection]
    rfl
  rw [← Event.countP_filter_of_imp hfamily, filter_step_family]
  refine List.countP_eq_length.mpr fun e he => ?_
  exact decide_eq_true (category_stepSelection a.selection x e he)

/-- From the first selection on there is one under way or reported. -/
theorem selections_step :
    0 < (a.step names x).1.countP (·.category = .selection) +
      (a.step names x).2.selection.isSome.toNat ↔
      0 < a.selection.isSome.toNat + if x.writesDevice then 1 else 0 := by
  rw [countP_step_selection]
  show 0 < (stepSelection a.selection x).1.length +
      (stepSelection a.selection x).2.isSome.toNat ↔ _
  cases a.selection with
  | none =>
      rw [stepSelection_none]
      split <;> simp
  | some s =>
      refine iff_of_true ?_ (Nat.add_pos_left Nat.one_pos _)
      rw [stepSelection_some]
      split
      · exact Nat.add_pos_left Nat.one_pos _
      · exact Nat.add_pos_right _ Nat.one_pos

theorem selections_timeline (stop : Nat) (xs : List Access) :
    0 < (a.timeline names stop xs).countP (·.category = .selection) ↔
      0 < a.selection.isSome.toNat + xs.countP (·.writesDevice) := by
  induction xs generalizing a with
  | nil =>
      have hended : a.endedBy (a.farewell stop) .selection = a.selection.isSome :=
        endedBy_farewell a stop .selection
      show 0 < (a.step names (a.farewell stop)).1.countP _ ↔ _
      rw [countP_step_selection]
      rw [endedBy] at hended
      cases hselection : a.selection with
      | none => simp [stepSelection_none]
      | some s =>
          rw [hselection, Option.any_some, Option.isSome_some] at hended
          simp [stepSelection_some, hended]
  | cons x xs ih =>
      have hstep := selections_step names a x
      have hrest := ih (a.step names x).2
      show 0 < ((a.step names x).1 ++ (a.step names x).2.timeline names stop xs).countP _ ↔ _
      rw [List.countP_append, List.countP_cons]
      omega

end Activity

/-! ### Writes to the control mux -/

namespace Automaton

variable (m : Monitor) (a : Account)

theorem countP_isMuxWrite_eq_zero {events : List Event} (h : ∀ e ∈ events, e.family ≠ none) :
    events.countP Event.isMuxWrite = 0 := by
  refine List.countP_eq_zero.mpr fun e he => ?_
  rw [Event.isMuxWrite_eq, Option.isNone_iff_eq_none]
  exact h e he

theorem muxWrites_awake (s : Sample) (next : Option Nat) :
    (awake m a s next).2.tally.muxWrites =
      a.tally.muxWrites + (awake m a s next).1.countP Event.isMuxWrite := by
  unfold awake stayAtRest
  split
  · rfl
  · split
    · split
      · rfl
      · dsimp only
        split <;> rfl
    · split <;> rfl

theorem muxWrites_step (s : Sample) (next : Option Nat) :
    (step m a s next).2.tally.muxWrites =
      a.tally.muxWrites + (step m a s next).1.countP Event.isMuxWrite := by
  unfold step
  split
  · rfl
  · split
    · exact muxWrites_awake m a s next
    · rfl
  · split
    · rw [countP_isMuxWrite_eq_zero fun e => family_of_mem_complete]
      rfl
    · rfl
  · split <;> rfl

/-- What is counted when a capture has been read is what was counted before and is reported
since. -/
theorem muxWrites_read (time : Nat) (samples : List Sample) :
    (read m a time samples).2.muxWrites =
      a.tally.muxWrites + (read m a time samples).1.countP Event.isMuxWrite := by
  induction samples generalizing a time with
  | nil =>
      have hcut : (cutOff a time).1.countP Event.isMuxWrite = 0 :=
        countP_isMuxWrite_eq_zero fun e => family_of_mem_cutOff
      have hfinish :
          ((cutOff a time).2.activity.finish m.names time).1.countP Event.isMuxWrite = 0 := by
        refine countP_isMuxWrite_eq_zero fun e he => ?_
        obtain ⟨f, hfamily, -⟩ := Activity.family_step m.names _ _ e he
        exact Option.ne_none_iff_exists'.mpr ⟨f, hfamily⟩
      have htally : (cutOff a time).2.tally.muxWrites = a.tally.muxWrites := by
        unfold cutOff
        split <;> rfl
      simp only [read, List.countP_append, hcut, hfinish, htally, Nat.add_zero]
  | cons s more ih =>
      have hstep := muxWrites_step m a s (more.head?.map Sample.time)
      rw [read_cons, follow]
      simp only [List.countP_append, ih, hstep, Nat.add_assoc]

end Automaton

/-! ### Whole captures -/

namespace Monitor

variable (m : Monitor) (samples : List Sample)

theorem countP_events_bus {p : Event → Bool} (hp : ∀ e, p e → e.ofBus) :
    (m.events samples).countP p = (m.history samples).countP fun o => p (o.event m.names) := by
  rw [← Event.countP_filter_of_imp hp, funext Event.ofBus_eq, filter_events_bus,
    List.countP_map]
  rfl

theorem countP_events_access {p : Event → Bool} (hp : ∀ e, p e → e.category.isAccess) :
    (m.events samples).countP p =
      (Occurrence.accesses (m.history samples)).countP fun x => p (x.event m.names) := by
  rw [← Event.countP_filter_of_imp hp, filter_events_access, List.countP_map]
  rfl

theorem countP_events_activity {p : Event → Bool} (hp : ∀ e, p e → e.ofActivity) :
    (m.events samples).countP p =
      (Activity.idle.timeline m.names (Sample.lastTime 0 samples)
        (Occurrence.accesses (m.history samples))).countP p := by
  rw [← Event.countP_filter_of_imp hp, filter_events_activity]

theorem tally_events :
    (Automaton.run m samples).2.accesses = (m.events samples).countP (·.category.isAccess) ∧
      (Automaton.run m samples).2.overflows =
        (m.events samples).countP (·.content = .overflow) := by
  obtain ⟨haccesses, hoverflows, -⟩ := tally_run m samples
  constructor
  · rw [haccesses, countP_events_bus m samples fun e h => Bool.or_eq_true_iff.mpr (.inl h)]
    refine List.countP_congr fun o _ => ?_
    cases o with
    | access x => exact iff_of_true rfl (isAccess_event m.names x)
    | gap => exact Iff.rfl
  · rw [hoverflows, countP_events_bus m samples fun e h => Bool.or_eq_true_iff.mpr (.inr h)]
    refine List.countP_congr fun o _ => ?_
    cases o with
    | access x =>
        have hcontent : (x.event m.names).content ≠ .overflow := by
          rw [Access.event]
          dsimp only
          split <;> split <;> exact Content.noConfusion
        simp [Occurrence.isAccess, Occurrence.access?, Occurrence.event, hcontent]
    | gap => exact Iff.rfl

theorem countP_events_writesTo {address : BitVec 8} (h : address ≠ Register.data) :
    (m.events samples).countP (Event.writesTo address) =
      (Occurrence.accesses (m.history samples)).countP fun x =>
        x.direction = .write && x.address = address := by
  rw [countP_events_access m samples fun e => Event.isAccess_of_writesTo]
  simp only [Access.writesTo_event m.names _ h]

theorem countP_events_command :
    (m.events samples).countP (·.category = .command) =
      (m.events samples).countP (Event.writesTo Register.command) := by
  rw [countP_events_writesTo m samples (by decide),
    countP_events_activity m samples fun e => Event.ofActivity_of_category (by decide),
    List.countP_eq_length_filter, Activity.filter_timeline_command, length_commandSpans]
  rfl

theorem countP_events_packet_le :
    (m.events samples).countP (·.category = .packet) ≤
      (m.events samples).countP Event.awaitsPacket := by
  rw [countP_events_activity m samples fun e => Event.ofActivity_of_category (by decide),
    countP_events_activity m samples fun e h =>
      Event.ofActivity_of_category (by decide) (Event.category_of_awaitsPacket h),
    List.countP_eq_length_filter, Activity.filter_timeline_packet,
    ← Event.countP_filter_of_imp fun e => Event.category_of_awaitsPacket,
    Activity.filter_timeline_command]
  exact length_packetSpans_le ..

theorem transferred_events :
    Event.transferred (m.events samples) = (m.events samples).countP Event.carriesWord := by
  have htransfer (e : Event) (h : e.family = some .transfers) : e.ofActivity := by
    rw [Event.ofActivity, h]
    rfl
  rw [← Event.transferred_filter htransfer, filter_events_activity, Activity.words_timeline,
    countP_events_access m samples fun e => Event.isAccess_of_carriesWord]
  simp only [Access.carriesWord_event]
  exact Nat.zero_add _

theorem selected_iff :
    (∃ e ∈ m.events samples, e.category = .selection) ↔
      ∃ e ∈ m.events samples, e.writesTo Register.device := by
  have hselected := Activity.selections_timeline m.names .idle (Sample.lastTime 0 samples)
    (Occurrence.accesses (m.history samples))
  rw [← countP_events_activity m samples fun e => Event.ofActivity_of_category (by decide)]
      at hselected
  have hwrites : (m.events samples).countP (Event.writesTo Register.device) =
      (Occurrence.accesses (m.history samples)).countP (·.writesDevice) :=
    countP_events_writesTo m samples (by decide)
  rw [← hwrites, show Activity.idle.selection.isSome.toNat = 0 from rfl, Nat.zero_add,
    List.countP_pos_iff, List.countP_pos_iff] at hselected
  simpa using hselected

/-- A run that comes to its end has given its sink the events of the capture, each of them
once, and its tally is theirs: their number, the accesses, gaps and writes to the control mux
among them, and at most one pulse that the capture cuts off. There is a command for every write
to the command register, the transfers have as many words as there are accesses to the data
register, there is at most one packet for every packet command, and a selection is reported if
and only if one is made. -/
theorem tally_of_run {σ : Type} (sink : Sink σ) (state final : σ) (tally : Tally)
    (hrun : m.run sink state samples = (.ok tally, final)) :
    let events := m.events samples
    sink.Takes state events final ∧
      m.run sink.counting (state, 0) samples = (.ok tally, (final, tally.events)) ∧
      tally.events = events.length ∧
      tally.accesses = events.countP (·.category.isAccess) ∧
      tally.overflows = events.countP (·.content = .overflow) ∧
      tally.muxWrites = events.countP Event.isMuxWrite ∧
      tally.truncated ≤ 1 ∧
      events.countP (·.category = .command) = events.countP (Event.writesTo Register.command) ∧
      Event.transferred events = events.countP Event.carriesWord ∧
      events.countP (·.category = .packet) ≤ events.countP Event.awaitsPacket ∧
      ((∃ e ∈ events, e.category = .selection) ↔
        ∃ e ∈ events, e.writesTo Register.device) := by
  intro events
  obtain ⟨htakes, rfl⟩ := takes_of_run hrun
  have hevents : (Automaton.run m samples).2.events = events.length := by
    rw [show events = (Automaton.read m {} 0 samples).1 from events_eq m samples]
    rfl
  have hcounting : m.run sink.counting (state, 0) samples =
      (.ok (Automaton.run m samples).2, (final, events.length)) := by
    have htaken := Sink.takes_counting htakes 0
    rw [Nat.zero_add] at htaken
    exact run_of_takes htaken
  have hmux : (Automaton.run m samples).2.muxWrites = events.countP Event.isMuxWrite := by
    rw [show events = (Automaton.read m {} 0 samples).1 from events_eq m samples]
    exact (Automaton.muxWrites_read m {} 0 samples).trans (Nat.zero_add _)
  have htruncated : (Automaton.run m samples).2.truncated ≤ 1 := by
    rw [(tally_run m samples).2.2.1]
    exact Bool.toNat_le _
  obtain ⟨haccesses, hoverflows⟩ := tally_events m samples
  rw [hevents]
  exact ⟨htakes, hcounting, rfl, haccesses, hoverflows, hmux, htruncated,
    countP_events_command m samples,
    transferred_events m samples, countP_events_packet_le m samples, selected_iff m samples⟩

/-- A packet command with one word of data, a selection, and a pulse that the capture cuts
off. -/
theorem tally_of_run_packet :
    let m : Monitor := { lines := .recorder }
    let samples : List Sample :=
      [⟨0, 3⟩, ⟨10, 0xA05E⟩, ⟨20, 0xA05F⟩, ⟨30, 0x123442⟩, ⟨40, 0x123443⟩, ⟨50, 0x105A⟩,
        ⟨60, 0x105B⟩, ⟨70, 0x105A⟩]
    ∃ taken, m.run .collect #[] samples =
        (.ok { accesses := 3, truncated := 1, events := 7, endTime := 70 }, taken) ∧
      Sink.collect.Takes #[] (m.events samples) taken ∧ (m.events samples).length = 7 ∧
      (m.events samples).countP (·.category.isAccess) = 3 ∧
      Event.transferred (m.events samples) = (m.events samples).countP Event.carriesWord := by
  intro m samples
  have htally : (Automaton.run m samples).2 =
      { accesses := 3, truncated := 1, events := 7, endTime := 70 } := by
    decide +kernel
  have hrun : m.run .collect #[] samples =
      (.ok { accesses := 3, truncated := 1, events := 7, endTime := 70 },
        (Automaton.run m samples).1.toArray) := by
    rw [run_collect, htally]
  obtain ⟨htakes, -, hlength, haccesses, -, -, -, -, hwords, -⟩ :=
    tally_of_run m samples _ _ _ _ hrun
  exact ⟨_, hrun, htakes, hlength.symm, haccesses.symm, hwords⟩

end Monitor

end AtaCapture.Ata
