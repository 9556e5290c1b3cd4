import AtaCapture.Proofs.Ata.Parts

/-!
Which commands and packets a sequence of accesses contains, said without a state: a command
lasts from its write to the first access that ends it, and if that is the first data word of a
packet command, the packet lasts from there on. The activity reports just these, in order,
because a command and a packet are never under way at the same time.
-/

namespace AtaCapture.Ata

/-- A new command or a device selection. -/
def Access.endsPacket (x : Access) : Bool := x.writesCommand || x.writesDevice

/-- What ends a packet, or the data word that a packet command waits for. -/
def Access.endsCommand (opcode : BitVec 8) (x : Access) : Bool :=
  x.endsPacket || x.writesData && opcode = packetOpcode

/-- The start of the first access of a kind, or `stop` if there is none. -/
def firstStart (kind : Access → Bool) (stop : Nat) (xs : List Access) : Nat :=
  ((xs.find? kind).map Access.start).getD stop

def commandSpan (names : Names) (stop start : Nat) (opcode : BitVec 8) (later : List Access) :
    Event where
  start := start
  stop := firstStart (·.endsCommand opcode) stop later
  content := .command opcode (names.command opcode)

def packetSpan (names : Names) (stop start : Nat) (opcode : BitVec 8) (later : List Access) :
    Event where
  start := start
  stop := firstStart Access.endsPacket stop later
  content := .packet opcode (names.packet opcode)

/-- The packet of a command with `opcode`: it is sent if a data word comes before anything else
that ends the command. -/
def packetOf (names : Names) (stop : Nat) (opcode : BitVec 8) (later : List Access) :
    Option Event :=
  if opcode = packetOpcode then
    match later.dropWhile (fun y => !y.endsCommand packetOpcode) with
    | d :: rest =>
        if d.writesData then some (packetSpan names stop d.start d.low rest) else none
    | [] => none
  else none

/-- The commands among accesses that end at `stop`, one for every write to the command
register. -/
def commandSpans (names : Names) (stop : Nat) : List Access → List Event
  | [] => []
  | x :: later =>
    if x.writesCommand then
      commandSpan names stop x.start x.low later :: commandSpans names stop later
    else commandSpans names stop later

/-- The packets among accesses that end at `stop`, at most one for every write to the command
register. -/
def packetSpans (names : Names) (stop : Nat) : List Access → List Event
  | [] => []
  | x :: later =>
    if x.writesCommand then
      (packetOf names stop x.low later).toList ++ packetSpans names stop later
    else packetSpans names stop later

/-! ### Kinds of accesses -/

theorem Access.writesData_of_endsPacket {x : Access} (h : x.endsPacket) :
    x.writesData = false := by
  simp only [endsPacket, writesCommand, writesDevice, Bool.or_eq_true, Bool.and_eq_true,
    decide_eq_true_eq] at h
  have hcommand : Register.command ≠ Register.data := by decide
  have hdevice : Register.device ≠ Register.data := by decide
  rcases h with ⟨-, haddress⟩ | ⟨-, haddress⟩ <;>
    simp [writesData, haddress, hcommand, hdevice]

theorem firstStart_cons_of_kind {kind : Access → Bool} {x : Access} (h : kind x) (stop : Nat)
    (xs : List Access) : firstStart kind stop (x :: xs) = x.start := by
  simp [firstStart, h]

theorem firstStart_cons_of_not_kind {kind : Access → Bool} {x : Access} (h : kind x = false)
    (stop : Nat) (xs : List Access) :
    firstStart kind stop (x :: xs) = firstStart kind stop xs := by
  simp [firstStart, h]

section

variable {names : Names} {stop : Nat} {x : Access} {xs : List Access}

theorem packetOf_of_endsPacket (h : x.endsPacket) (opcode : BitVec 8) :
    packetOf names stop opcode (x :: xs) = none := by
  have hdata := Access.writesData_of_endsPacket h
  simp [packetOf, Access.endsCommand, h, hdata]

theorem packetOf_of_sendsPacket {o : OpenCommand} (h : o.sendsPacket x) :
    packetOf names stop o.opcode (x :: xs) =
      some (packetSpan names stop x.start x.low xs) := by
  simp only [OpenCommand.sendsPacket, Bool.and_eq_true, decide_eq_true_eq] at h
  simp [packetOf, Access.endsCommand, h.1, h.2]

theorem packetOf_of_quiet {o : OpenCommand} (hbreaks : x.endsPacket = false)
    (hsends : o.sendsPacket x = false) :
    packetOf names stop o.opcode (x :: xs) = packetOf names stop o.opcode xs := by
  by_cases hopcode : o.opcode = packetOpcode
  · have hdata : x.writesData = false := by
      simpa [OpenCommand.sendsPacket, hopcode] using hsends
    simp [packetOf, Access.endsCommand, hbreaks, hdata]
  · simp [packetOf, hopcode]

end

/-! ### What one access does -/

namespace Commands

variable {names : Names} {c : Commands} {x : Access}

/-- A command and a packet are not under way together. -/
def Single (c : Commands) : Prop := c.command = none ∨ c.packet = none

theorem step_of_endsPacket (h : x.endsPacket) :
    c.step names x = ((c.packet.map (·.packetEvent names x.start)).toList ++
      (c.command.map (·.commandEvent names x.start)).toList,
      { command := if x.writesCommand then some { start := x.start, opcode := x.low } else none
        packet := none }) := by
  have hdata := Access.writesData_of_endsPacket h
  have hsends : c.command.any (·.sendsPacket x) = false := by
    cases c.command <;> simp [OpenCommand.sendsPacket, hdata]
  simp only [Access.endsPacket] at h
  simp [step, h, hsends]

theorem step_of_sendsPacket {o : OpenCommand} (hbreaks : x.endsPacket = false)
    (hcommand : c.command = some o) (hsends : o.sendsPacket x) :
    c.step names x = ([o.commandEvent names x.start],
      { command := none, packet := some { start := x.start, opcode := x.low } }) := by
  obtain ⟨hcommands, hdevices⟩ := Bool.or_eq_false_iff.mp hbreaks
  simp [step, hcommands, hdevices, hcommand, hsends]

theorem step_of_quiet (hbreaks : x.endsPacket = false)
    (hsends : c.command.any (·.sendsPacket x) = false) : c.step names x = ([], c) := by
  obtain ⟨hcommands, hdevices⟩ := Bool.or_eq_false_iff.mp hbreaks
  simp [step, hcommands, hdevices, hsends]

theorem Single.step (hc : c.Single) (names : Names) (x : Access) :
    (c.step names x).2.Single := by
  by_cases hbreaks : x.endsPacket
  · rw [step_of_endsPacket hbreaks]
    exact .inr rfl
  · rw [Bool.not_eq_true] at hbreaks
    cases hsends : c.command.any (·.sendsPacket x) with
    | false =>
        rw [step_of_quiet hbreaks hsends]
        exact hc
    | true =>
        obtain ⟨o, ho, hsends⟩ := (Option.any_eq_true ..).mp hsends
        rw [step_of_sendsPacket hbreaks ho hsends]
        exact .inl rfl

/-! ### What is under way ends as its span says -/

theorem filter_command_ends (c : Commands) (names : Names) (stop : Nat) :
    ((c.packet.map (·.packetEvent names stop)).toList ++
      (c.command.map (·.commandEvent names stop)).toList).filter (·.category = .command) =
      (c.command.map (·.commandEvent names stop)).toList := by
  rcases c with ⟨_ | o, _ | p⟩ <;> rfl

theorem filter_packet_ends (c : Commands) (names : Names) (stop : Nat) :
    ((c.packet.map (·.packetEvent names stop)).toList ++
      (c.command.map (·.commandEvent names stop)).toList).filter (·.category = .packet) =
      (c.packet.map (·.packetEvent names stop)).toList := by
  rcases c with ⟨_ | o, _ | p⟩ <;> rfl

variable {bye : Access}

/-- The command under way comes first, then those that begin later. -/
theorem filter_feed_command (names : Names) (hbye : bye.writesDevice) (xs : List Access) :
    (feed (step names) c (xs ++ [bye])).filter (·.category = .command) =
      (c.command.map fun o => commandSpan names bye.start o.start o.opcode xs).toList ++
        commandSpans names bye.start xs := by
  induction xs generalizing c with
  | nil =>
      have hends : bye.endsPacket := Bool.or_eq_true_iff.mpr (.inr hbye)
      simp only [List.nil_append, feed, step_of_endsPacket hends, List.append_nil,
        filter_command_ends, commandSpans]
      rfl
  | cons x xs ih =>
      simp only [List.cons_append, feed, List.filter_append, ih, commandSpans]
      by_cases hbreaks : x.endsPacket
      · have hspan (o : OpenCommand) : commandSpan names bye.start o.start o.opcode (x :: xs) =
            o.commandEvent names x.start := by
          simp only [commandSpan, OpenCommand.commandEvent]
          rw [firstStart_cons_of_kind (by simp [Access.endsCommand, hbreaks])]
        simp only [step_of_endsPacket hbreaks, filter_command_ends, hspan]
        cases x.writesCommand <;> simp
      · rw [Bool.not_eq_true] at hbreaks
        have hwrites : x.writesCommand = false := (Bool.or_eq_false_iff.mp hbreaks).1
        cases hsends : c.command.any (·.sendsPacket x) with
        | true =>
            obtain ⟨o, ho, hsends⟩ := (Option.any_eq_true ..).mp hsends
            have hspan : commandSpan names bye.start o.start o.opcode (x :: xs) =
                o.commandEvent names x.start := by
              simp only [commandSpan, OpenCommand.commandEvent]
              rw [firstStart_cons_of_kind (Bool.or_eq_true_iff.mpr (.inr hsends))]
            simp [step_of_sendsPacket hbreaks ho hsends, ho, hspan, hwrites,
              Event.category, Content.category, OpenCommand.commandEvent]
        | false =>
            have hspan (o : OpenCommand) (ho : c.command = some o) :
                commandSpan names bye.start o.start o.opcode (x :: xs) =
                  commandSpan names bye.start o.start o.opcode xs := by
              rw [ho, Option.any_some] at hsends
              simp only [commandSpan]
              rw [firstStart_cons_of_not_kind (Bool.or_eq_false_iff.mpr ⟨hbreaks, hsends⟩)]
            rw [step_of_quiet hbreaks hsends, hwrites]
            cases ho : c.command with
            | none => simp
            | some o => simp [hspan o ho]

/-- The packet under way comes first, or that of the command under way, then those of later
commands. -/
theorem filter_feed_packet (names : Names) (hc : c.Single) (hbye : bye.writesDevice)
    (xs : List Access) :
    (feed (step names) c (xs ++ [bye])).filter (·.category = .packet) =
      (c.packet.map fun o => packetSpan names bye.start o.start o.opcode xs).toList ++
        (c.command.bind fun o => packetOf names bye.start o.opcode xs).toList ++
        packetSpans names bye.start xs := by
  induction xs generalizing c with
  | nil =>
      have hends : bye.endsPacket := Bool.or_eq_true_iff.mpr (.inr hbye)
      have hnone (o : OpenCommand) : packetOf names bye.start o.opcode [] = none := by
        simp [packetOf]
      simp only [List.nil_append, feed, step_of_endsPacket hends, List.append_nil,
        filter_packet_ends, packetSpans, hnone]
      cases c.command <;> simp <;> rfl
  | cons x xs ih =>
      simp only [List.cons_append, feed, List.filter_append, ih (hc.step names x), packetSpans]
      by_cases hbreaks : x.endsPacket
      · have hspan (o : OpenCommand) : packetSpan names bye.start o.start o.opcode (x :: xs) =
            o.packetEvent names x.start := by
          simp only [packetSpan, OpenCommand.packetEvent]
          rw [firstStart_cons_of_kind hbreaks]
        have hnone (o : OpenCommand) : packetOf names bye.start o.opcode (x :: xs) = none :=
          packetOf_of_endsPacket hbreaks o.opcode
        simp only [step_of_endsPacket hbreaks, filter_packet_ends, hspan, hnone]
        cases x.writesCommand <;> cases c.command <;> simp
      · rw [Bool.not_eq_true] at hbreaks
        have hwrites : x.writesCommand = false := (Bool.or_eq_false_iff.mp hbreaks).1
        cases hsends : c.command.any (·.sendsPacket x) with
        | true =>
            obtain ⟨o, ho, hsends⟩ := (Option.any_eq_true ..).mp hsends
            -- The command was under way alone, so no packet is lost to the new one.
            have hpacket : c.packet = none := hc.resolve_left (by simp [ho])
            simp [step_of_sendsPacket hbreaks ho hsends, ho, hpacket, hwrites,
              packetOf_of_sendsPacket hsends, Event.category, Content.category,
              OpenCommand.commandEvent]
        | false =>
            have hspan (o : OpenCommand) :
                packetSpan names bye.start o.start o.opcode (x :: xs) =
                packetSpan names bye.start o.start o.opcode xs := by
              simp only [packetSpan]
              rw [firstStart_cons_of_not_kind hbreaks]
            rw [step_of_quiet hbreaks hsends, hwrites]
            cases ho : c.command with
            | none => simp [hspan]
            | some o =>
                rw [ho, Option.any_some] at hsends
                simp [hspan, packetOf_of_quiet hbreaks hsends]

end Commands

namespace Activity

variable {names : Names} {stop : Nat}

theorem content_of_mem_commandSpans {e : Event} {xs : List Access}
    (he : e ∈ commandSpans names stop xs) :
    ∃ opcode, e.content = .command opcode (names.command opcode) := by
  induction xs with
  | nil => cases he
  | cons x later ih =>
      rw [commandSpans] at he
      split at he
      · rcases List.mem_cons.mp he with rfl | he
        · exact ⟨x.low, rfl⟩
        · exact ih he
      · exact ih he

theorem content_of_packetOf {e : Event} {opcode : BitVec 8} {xs : List Access}
    (he : packetOf names stop opcode xs = some e) :
    ∃ opcode, e.content = .packet opcode (names.packet opcode) := by
  rw [packetOf] at he
  split at he
  · split at he
    · next d rest _ =>
      split at he
      · obtain rfl := Option.some.inj he
        exact ⟨d.low, rfl⟩
      · cases he
    · cases he
  · cases he

theorem content_of_mem_packetSpans {e : Event} {xs : List Access}
    (he : e ∈ packetSpans names stop xs) :
    ∃ opcode, e.content = .packet opcode (names.packet opcode) := by
  induction xs with
  | nil => cases he
  | cons x later ih =>
      rw [packetSpans] at he
      split at he
      · rcases List.mem_append.mp he with he | he
        · exact content_of_packetOf (Option.mem_toList.mp he)
        · exact ih he
      · exact ih he

theorem farewell_writesDevice (a : Activity) (stop : Nat) :
    (a.farewell stop).writesDevice := rfl

theorem filter_timeline_command (names : Names) (stop : Nat) (xs : List Access) :
    (idle.timeline names stop xs).filter (·.category = .command) =
      commandSpans names stop xs := by
  rw [timeline_eq_feed, filter_feed_commands names idle _ rfl,
    Commands.filter_feed_command names (farewell_writesDevice (idle.after names xs) stop)]
  rfl

theorem filter_timeline_packet (names : Names) (stop : Nat) (xs : List Access) :
    (idle.timeline names stop xs).filter (·.category = .packet) =
      packetSpans names stop xs := by
  rw [timeline_eq_feed, filter_feed_commands names idle _ rfl,
    Commands.filter_feed_packet names (.inl rfl)
      (farewell_writesDevice (idle.after names xs) stop)]
  rfl

/-- The commands and packets of a timeline are those that its accesses make: every write to the
command register is a command up to the first access that ends it, and every packet command
whose first such access is a data word is a packet from there to the next command or selection.
Each has the name that the table of its command set has for its opcode. -/
theorem commands_of_timeline (names : Names) (stop : Nat) (xs : List Access) :
    (idle.timeline names stop xs).filter (·.category = .command) = commandSpans names stop xs ∧
      (idle.timeline names stop xs).filter (·.category = .packet) = packetSpans names stop xs ∧
      ∀ e ∈ idle.timeline names stop xs, ∀ opcode mnemonic,
        (e.content = .command opcode mnemonic → names.commands.Entry opcode mnemonic) ∧
        (e.content = .packet opcode mnemonic → names.packets.Entry opcode mnemonic) := by
  have hcommands := filter_timeline_command names stop xs
  have hpackets := filter_timeline_packet names stop xs
  refine ⟨hcommands, hpackets, fun e he opcode mnemonic =>
    ⟨fun hcontent => ?_, fun hcontent => ?_⟩⟩
  · have hcategory : e.category = .command := congrArg Content.category hcontent
    have hspan : e ∈ commandSpans names stop xs :=
      hcommands ▸ List.mem_filter.mpr ⟨he, decide_eq_true hcategory⟩
    obtain ⟨code, hcode⟩ := content_of_mem_commandSpans hspan
    obtain ⟨rfl, hname⟩ := Content.command.inj (hcontent.symm.trans hcode)
    exact NameTable.find?_eq_iff.mp hname.symm
  · have hcategory : e.category = .packet := congrArg Content.category hcontent
    have hspan : e ∈ packetSpans names stop xs :=
      hpackets ▸ List.mem_filter.mpr ⟨he, decide_eq_true hcategory⟩
    obtain ⟨code, hcode⟩ := content_of_mem_packetSpans hspan
    obtain ⟨rfl, hname⟩ := Content.packet.inj (hcontent.symm.trans hcode)
    exact NameTable.find?_eq_iff.mp hname.symm

/-- Tables with two entries for one opcode, of which the later counts, and none for another. A
packet is sent, a word of it follows, and one more command comes before the end. -/
theorem commands_of_timeline_tables :
    let names : Names :=
      { Names.empty with
        commands := .ofList [(0xA0, "FIRST"), (0x20, "READ"), (0xA0, "SEND")]
        packets := .ofList [(0x12, "INQUIRY"), (0x12, "ASK")] }
    let xs : List Access :=
      [⟨10, 12, .write, 0x17, 0xA0⟩, ⟨20, 22, .write, 0x10, 0x0012⟩, ⟨30, 32, .write, 0x10, 0⟩,
        ⟨40, 42, .write, 0x17, 0xEC⟩]
    names.commands.Entry 0xA0 (some "SEND") ∧ names.packets.Entry 0x12 (some "ASK") ∧
      names.commands.Entry 0xEC none ∧
      (idle.timeline names 50 xs).filter (·.category = .command) =
        [⟨10, 20, .command 0xA0 (some "SEND")⟩, ⟨40, 50, .command 0xEC none⟩] ∧
      (idle.timeline names 50 xs).filter (·.category = .packet) =
        [⟨20, 40, .packet 0x12 (some "ASK")⟩] := by
  intro names xs
  obtain ⟨hcommands, hpackets, hnames⟩ := commands_of_timeline names 50 xs
  have hspans : commandSpans names 50 xs =
      [⟨10, 20, .command 0xA0 (some "SEND")⟩, ⟨40, 50, .command 0xEC none⟩] := by decide
  have hsent : packetSpans names 50 xs = [⟨20, 40, .packet 0x12 (some "ASK")⟩] := by decide
  have hmem {e : Event} {c : Category}
      (he : e ∈ (idle.timeline names 50 xs).filter (·.category = c)) :
      e ∈ idle.timeline names 50 xs := (List.mem_filter.mp he).1
  rw [hspans] at hcommands
  rw [hsent] at hpackets
  have hfirst := hmem (hcommands ▸ List.mem_cons_self ..)
  have hsecond := hmem (hcommands ▸ List.mem_cons_of_mem _ (List.mem_cons_self ..))
  have hpacket := hmem (hpackets ▸ List.mem_cons_self ..)
  exact ⟨(hnames _ hfirst _ _).1 rfl, (hnames _ hpacket _ _).2 rfl,
    (hnames _ hsecond _ _).1 rfl, hcommands, hpackets⟩

end Activity

end AtaCapture.Ata
