import AtaCapture.Proofs.Ata.Deliveries
import AtaCapture.Proofs.Ata.Naming
import AtaCapture.Proofs.Text.Lines

/-!
The lines of a log. An event takes one line of it if the names in its tables do, so the line
breaks of a log count its events.
-/

namespace AtaCapture.Ata

namespace NameTable

def OneLine (t : NameTable) : Prop := ∀ entry ∈ t.entries, AtaCapture.OneLine entry.2

instance (t : NameTable) : Decidable t.OneLine :=
  inferInstanceAs (Decidable (∀ entry ∈ t.entries, _))

theorem OneLine.of_find? {t : NameTable} (h : t.OneLine) {code : BitVec 8} :
    ∀ name ∈ t.find? code, AtaCapture.OneLine name := by
  intro name hname
  obtain ⟨entry, hentry, rfl⟩ := Option.map_eq_some_iff.mp hname
  exact h entry (List.mem_reverse.mp (List.mem_of_find?_eq_some hentry))

end NameTable

structure Names.OneLine (n : Names) : Prop where
  written : n.written.OneLine
  readBack : n.readBack.OneLine
  commands : n.commands.OneLine
  packets : n.packets.OneLine

/-- No name that is found has a line break. What a later entry replaces is never found. -/
structure Names.Unbroken (n : Names) : Prop where
  register : ∀ direction address, ∀ name ∈ n.register direction address,
    AtaCapture.OneLine name
  command : ∀ opcode, ∀ name ∈ n.command opcode, AtaCapture.OneLine name
  packet : ∀ opcode, ∀ name ∈ n.packet opcode, AtaCapture.OneLine name

theorem Names.OneLine.unbroken {n : Names} (h : n.OneLine) : n.Unbroken where
  register direction _ := match direction with
    | .write => h.written.of_find?
    | .read => h.readBack.of_find?
  command _ := h.commands.of_find?
  packet _ := h.packets.of_find?

theorem Names.oneLine_standard : Names.standard.OneLine where
  written := by decide
  readBack := by decide
  commands := by decide +kernel
  packets := by decide +kernel

theorem oneLine_statusFlags (value : BitVec 8) : ∀ flag ∈ statusFlags value, OneLine flag := by
  intro flag hflag
  obtain ⟨entry, hentry, rfl⟩ := List.mem_map.mp hflag
  exact (by decide : ∀ entry ∈ statusBits, OneLine entry.2) entry (List.mem_filter.mp hentry).1

theorem oneLine_activeOutputs (value : BitVec 16) :
    ∀ output ∈ activeOutputs value, OneLine output := by
  intro output houtput
  obtain ⟨entry, hentry, rfl⟩ := List.mem_map.mp houtput
  exact (by decide : ∀ entry ∈ muxOutputs, OneLine entry.name) entry
    (List.mem_filter.mp hentry).1

theorem Direction.oneLine_word (direction : Direction) : OneLine direction.word := by
  cases direction <;> decide

theorem Category.oneLine_id (c : Category) : OneLine c.id := by
  cases c <;> decide

variable {names : Names} {c : Content} {e : Event} {events : List Event}

theorem oneLine_getD {name : Option String} (h : ∀ text ∈ name, OneLine text)
    {unknown : String} (hunknown : OneLine unknown) : OneLine (name.getD unknown) := by
  cases name with
  | none => exact hunknown
  | some text => exact h text rfl

theorem Content.oneLine_headline (hnames : names.Unbroken) (h : c.named names = c) :
    OneLine c.headline := by
  cases c with
  | selection device => simp +decide [headline, labels]
  | registerWrite address register value =>
      obtain rfl : names.register .write address = register := by simpa [named] using h
      have hname :=
        oneLine_getD (hnames.register .write address) (by decide : OneLine "UNKNOWN")
      simp +decide [headline, labels, registerLabels, byteText, hname]
  | registerRead address register value =>
      obtain rfl : names.register .read address = register := by simpa [named] using h
      have hname :=
        oneLine_getD (hnames.register .read address) (by decide : OneLine "UNKNOWN")
      simp +decide [headline, labels, registerLabels, byteText, hname]
  | dataWrite value => simp +decide [headline, labels, wordText]
  | dataRead value => simp +decide [headline, labels, wordText]
  | command opcode mnemonic =>
      obtain rfl : names.command opcode = mnemonic := by simpa [named] using h
      have hname := oneLine_getD (hnames.command opcode) (by decide : OneLine "(unknown cmd)")
      simp +decide [headline, labels, byteText, hname]
  | packet opcode mnemonic =>
      obtain rfl : names.packet opcode = mnemonic := by simpa [named] using h
      have hname :=
        oneLine_getD (hnames.packet opcode) (by decide : OneLine "(unknown ATAPI cmd)")
      simp +decide [headline, labels, byteText, hname]
  | transfer direction words => simp +decide [headline, labels, direction.oneLine_word]
  | status value =>
      have hflags := OneLine.intercalate (by decide : OneLine " ") (oneLine_statusFlags value)
      simp +decide [headline, labels, byteText, hflags]
  | overflow => decide
  | muxWrite value =>
      have houtputs :=
        OneLine.intercalate (by decide : OneLine ", ") (oneLine_activeOutputs value)
      simp +decide [headline, labels, muxByte, houtputs]

/-- The line of an event ends with the only line break in it. -/
theorem Event.logLine_eq (hnames : names.Unbroken) (h : e.named names = e) :
    ∃ text, OneLine text ∧ e.logLine = text ++ "\n" := by
  have hcontent : e.content.named names = e.content := congrArg Event.content h
  refine ⟨_, ?_, rfl⟩
  simp +decide [Category.oneLine_id, Content.oneLine_headline hnames hcontent]

theorem Log.text_eq (events : List Event) :
    Log.text events = (String.join (events.map Event.logLine)).toUTF8 := by
  induction events with
  | nil => rfl
  | cons e events ih =>
      rw [text, ih, List.map_cons, String.join_cons]
      simp only [String.toUTF8_eq_toByteArray, String.toByteArray_append]

theorem Monitor.count_log {m : Monitor} (hnames : m.names.OneLine) (samples : List Sample) :
    (String.join ((m.events samples).map Event.logLine)).toList.count '\n' =
      (m.events samples).length :=
  count_lines fun _ he => Event.logLine_eq hnames.unbroken (named_of_mem_events he)

end AtaCapture.Ata
