import AtaCapture.Proofs.Ata.OnePass

/-!
Names only name. The tables are looked up when an event is made and nowhere else, so with other
tables a capture has the same events under other names; and every name is the entry of the
table in force, or absent where there is none.
-/

namespace AtaCapture.Ata

/-- The same under the names of these tables. -/
def Content.named (names : Names) : Content → Content
  | .registerWrite address _ value =>
      .registerWrite address (names.register .write address) value
  | .registerRead address _ value => .registerRead address (names.register .read address) value
  | .command opcode _ => .command opcode (names.command opcode)
  | .packet opcode _ => .packet opcode (names.packet opcode)
  | .selection device => .selection device
  | .dataWrite value => .dataWrite value
  | .dataRead value => .dataRead value
  | .transfer direction words => .transfer direction words
  | .status value => .status value
  | .overflow => .overflow
  | .muxWrite value => .muxWrite value

def Event.named (names : Names) (e : Event) : Event :=
  { e with content := e.content.named names }

/-- The names in it are those that the tables have for its codes: of a register in the table
for its direction, and of a command or a packet in the table of its command set. -/
def Content.NamedBy (names : Names) : Content → Prop
  | .registerWrite address register _ => names.written.Entry address register
  | .registerRead address register _ => names.readBack.Entry address register
  | .command opcode mnemonic => names.commands.Entry opcode mnemonic
  | .packet opcode mnemonic => names.packets.Entry opcode mnemonic
  | _ => True

variable {names other : Names}

theorem Content.named_eq_iff {c : Content} : c.named names = c ↔ c.NamedBy names := by
  cases c <;> simp [named, NamedBy, Names.register, Names.command, Names.packet,
    ← NameTable.find?_eq_iff]

@[simp] theorem Content.named_named (c : Content) :
    (c.named names).named other = c.named other := by
  cases c <;> rfl

@[simp] theorem Event.named_named (e : Event) :
    (e.named names).named other = e.named other := by
  rw [Event.named, Event.named, Event.named, Content.named_named]

/-! ### One access -/

theorem Access.named_event (names other : Names) (x : Access) :
    (x.event names).named other = x.event other := by
  rw [Access.event, Access.event, Event.named]
  split <;> cases x.direction <;> rfl

theorem map_named_toList {α : Type} {event renamed : α → Event}
    (h : ∀ a, (event a).named names = renamed a) (ended : Option α) :
    (ended.map event).toList.map (·.named names) = (ended.map renamed).toList := by
  cases ended with
  | none => rfl
  | some a => exact congrArg ([·]) (h a)

theorem Commands.named_step (names other : Names) (c : Commands) (x : Access) :
    c.step other x = ((c.step names x).1.map (·.named other), (c.step names x).2) := by
  have hpacket (o : OpenCommand) :
      (o.packetEvent names x.start).named other = o.packetEvent other x.start := rfl
  have hcommand (o : OpenCommand) :
      (o.commandEvent names x.start).named other = o.commandEvent other x.start := rfl
  rw [step, step]
  dsimp only
  rw [List.map_append, map_named_toList hpacket, map_named_toList hcommand]

theorem map_named_stepTransfer (names : Names) (t : Option OpenTransfer) (x : Access) :
    (stepTransfer t x).1.map (·.named names) = (stepTransfer t x).1 :=
  map_named_toList (fun _ => rfl) _

theorem map_named_stepPoll (names : Names) (p : Option OpenPoll) (x : Access) :
    (stepPoll p x).1.map (·.named names) = (stepPoll p x).1 := by
  rw [stepPoll]
  split
  · split
    · rfl
    · exact map_named_toList (fun _ => rfl) p
  · split
    · exact map_named_toList (fun _ => rfl) p
    · rfl

theorem map_named_stepSelection (names : Names) (s : Option OpenSelection) (x : Access) :
    (stepSelection s x).1.map (·.named names) = (stepSelection s x).1 := by
  rw [stepSelection]
  split
  · split
    · rfl
    · exact map_named_toList (fun _ => rfl) s
  · rfl

theorem Activity.named_step (names other : Names) (a : Activity) (x : Access) :
    a.step other x = ((a.step names x).1.map (·.named other), (a.step names x).2) := by
  rw [step, step, Commands.named_step names other]
  dsimp only
  simp only [List.map_append, map_named_stepTransfer, map_named_stepPoll,
    map_named_stepSelection]

theorem Activity.named_finish (names other : Names) (a : Activity) (time : Nat) :
    a.finish other time =
      ((a.finish names time).1.map (·.named other), (a.finish names time).2) := by
  rw [finish, finish, Activity.named_step names other]

/-! ### A whole capture -/

namespace Automaton

variable (m : Monitor) (other : Names) (a : Account)

theorem named_complete (x : Access) (s : Sample) :
    complete { m with names := other } a x s =
      ((complete m a x s).1.map (·.named other), (complete m a x s).2) := by
  rw [complete, complete]
  dsimp only
  rw [Activity.named_step m.names other, List.map_cons, Access.named_event]

theorem named_stayAtRest (s : Sample) (next : Option Nat) :
    stayAtRest { m with names := other } a s next =
      ((stayAtRest m a s next).1.map (·.named other), (stayAtRest m a s next).2) := by
  have hvalue : { m with names := other }.muxValue s = m.muxValue s := rfl
  rw [stayAtRest, stayAtRest, hvalue]
  cases m.muxValue s with
  | none => rfl
  | some value =>
      dsimp only
      split <;> rfl

theorem named_awake (s : Sample) (next : Option Nat) :
    awake { m with names := other } a s next =
      ((awake m a s next).1.map (·.named other), (awake m a s next).2) := by
  rw [awake, awake]
  dsimp only
  split
  · rfl
  · split
    · exact named_stayAtRest m other a s next
    · split <;> rfl

theorem named_step (s : Sample) (next : Option Nat) :
    step { m with names := other } a s next =
      ((step m a s next).1.map (·.named other), (step m a s next).2) := by
  rw [step, step]
  split
  · rfl
  · dsimp only
    split
    · exact named_awake m other a s next
    · rfl
  · dsimp only
    split
    · exact named_complete m other a _ s
    · rfl
  · dsimp only
    split <;> rfl

theorem map_named_cutOff (time : Nat) :
    (cutOff a time).1.map (·.named other) = (cutOff a time).1 := by
  rw [cutOff]
  split <;> rfl

theorem named_read (time : Nat) (samples : List Sample) :
    read { m with names := other } a time samples =
      ((read m a time samples).1.map (·.named other), (read m a time samples).2) := by
  induction samples generalizing a time with
  | nil =>
      rw [read, read]
      dsimp only
      rw [Activity.named_finish m.names other, List.map_append, map_named_cutOff]
  | cons s rest ih =>
      rw [read, read, named_step]
      dsimp only
      rw [ih, List.map_append]

end Automaton

theorem Monitor.events_named (m : Monitor) (other : Names) (samples : List Sample) :
    { m with names := other }.events samples = (m.events samples).map (·.named other) := by
  rw [events_eq, events_eq]
  exact congrArg Prod.fst (Automaton.named_read m other {} 0 samples)

/-- Every name is that of the tables in force. -/
theorem Monitor.named_of_mem_events {m : Monitor} {samples : List Sample} {e : Event}
    (he : e ∈ m.events samples) : e.named m.names = e := by
  have hnamed : m.events samples = (m.events samples).map (·.named m.names) :=
    events_named m m.names samples
  rw [hnamed] at he
  obtain ⟨e', -, rfl⟩ := List.mem_map.mp he
  exact Event.named_named e'

theorem Monitor.namedBy_of_mem_events {m : Monitor} {samples : List Sample} {e : Event}
    (he : e ∈ m.events samples) : e.content.NamedBy m.names :=
  Content.named_eq_iff.mp (congrArg Event.content (named_of_mem_events he))

end AtaCapture.Ata
