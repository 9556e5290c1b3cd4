import AtaCapture.Proofs.Ata.LogLines
import AtaCapture.Proofs.Text.Legible

/-!
A log shows its events. The span ends in front of two dots and of a blank, and the category in
front of another; what the category leaves open of an event stands at a fixed distance from one
end of the rest. A name may look like any part of a line, but it is that of a code which is
read elsewhere. So a log tells everything about its events, but for the low byte of what is
written to the control mux.
-/

namespace AtaCapture.Ata

/-! ### Fields -/

theorem legible_byteText : Legible byteText (· = ·) :=
  (Legible.upperHex BitVec.toNat (by decide) fun b => b.isLt).congr fun _ _ => BitVec.toNat_inj

theorem length_byteText (b : BitVec 8) : (byteText b).toList.length = 2 :=
  Numeral.length_upperHex (by decide) b.isLt

theorem legible_wordText : Legible wordText (· = ·) :=
  (Legible.upperHex BitVec.toNat (by decide) fun w => w.isLt).congr fun _ _ => BitVec.toNat_inj

theorem length_wordText (w : BitVec 16) : (wordText w).toList.length = 4 :=
  Numeral.length_upperHex (by decide) w.isLt

theorem legible_muxByte :
    Legible muxByte fun value other => value.toNat / 2 ^ 8 = other.toNat / 2 ^ 8 :=
  Legible.lowerHex _ (by decide) fun value => Nat.div_lt_of_lt_mul value.isLt

theorem legible_direction :
    Legible (fun direction : Direction => "Data " ++ direction.word ++ " ") (· = ·) := by
  have hword : Legible (fun direction : Direction => direction.word ++ " ") (· = ·) :=
    .closed rfl (fun a => by cases a <;> decide) fun a b => by cases a <;> cases b <;> decide
  have htext := (Legible.const "Data ").append hword
  simp only [true_and, ← String.append_assoc] at htext
  exact htext

/-- Which outputs are active is decided by the high byte. -/
theorem activeOutputs_congr {value other : BitVec 16}
    (h : value.toNat / 2 ^ 8 = other.toNat / 2 ^ 8) :
    activeOutputs value = activeOutputs other := by
  rw [activeOutputs, activeOutputs]
  congr 1
  refine List.filter_congr fun output houtput => ?_
  have hhigh : 8 ≤ output.bit :=
    (by decide : ∀ output ∈ muxOutputs, 8 ≤ output.bit) output houtput
  obtain ⟨i, hi⟩ := Nat.exists_eq_add_of_le hhigh
  have hbit : value.getLsbD output.bit = other.getLsbD output.bit := by
    rw [BitVec.getLsbD, BitVec.getLsbD, hi, Nat.add_comm, ← Nat.testBit_div_two_pow, h,
      Nat.testBit_div_two_pow]
  rw [hbit]

theorem Category.id_inj {c d : Category} : c.id = d.id ↔ c = d := by
  have hfound (c : Category) : Category.ofId? c.id = some c := by cases c <;> decide
  refine ⟨fun h => ?_, congrArg _⟩
  have hboth := hfound c
  rw [h, hfound d] at hboth
  exact (Option.some.inj hboth).symm

def codesText (codes : BitVec 8 × BitVec 8) : String :=
  " (0x" ++ byteText codes.1 ++ "): value 0x" ++ byteText codes.2

theorem legible_codesText : Legible codesText (· = ·) := by
  have haddress : Legible (fun codes : BitVec 8 × BitVec 8 => byteText codes.1)
      fun a b => a.1 = b.1 :=
    fun a b => legible_byteText a.1 b.1
  have hvalue : Legible (fun codes : BitVec 8 × BitVec 8 => byteText codes.2)
      fun a b => a.2 = b.2 :=
    fun a b => legible_byteText a.2 b.2
  refine ((((Legible.const " (0x").append haddress).append (.const "): value 0x")).append
    hvalue).congr ?_
  intro a b
  rw [true_and, and_true, Prod.ext_iff]

theorem length_codesText (codes : BitVec 8 × BitVec 8) :
    (codesText codes).toList.length = 19 := by
  simp [codesText, length_byteText]

/-! ### Contents -/

/-- The same, up to the low byte of what is written to the control mux. -/
inductive Content.Alike : Content → Content → Prop
  | same (c : Content) : Alike c c
  | muxWrite {value other : BitVec 16} (high : value.toNat / 2 ^ 8 = other.toNat / 2 ^ 8) :
      Alike (.muxWrite value) (.muxWrite other)

namespace Content

variable {names : Names} {c d : Content}

theorem Alike.category_eq (h : c.Alike d) : c.category = d.category := by
  cases h <;> rfl

theorem Alike.headline_eq (h : c.Alike d) : c.headline = d.headline := by
  cases h with
  | same => rfl
  | @muxWrite value other high =>
      show "Control mux write 0x" ++ muxByte value ++ " " ++
          ", ".intercalate (activeOutputs value) =
        "Control mux write 0x" ++ muxByte other ++ " " ++
          ", ".intercalate (activeOutputs other)
      rw [muxByte, high, ← muxByte, activeOutputs_congr high]

/-- The codes of an access stand at the end of its text, behind any name. -/
theorem codes_of_registerLabels {verb short letter : String}
    {address address' value value' : BitVec 8} {register register' : Option String}
    (h : (registerLabels verb short letter address register value).headD "" =
      (registerLabels verb short letter address' register' value').headD "") :
    (address, value) = (address', value') := by
  have hsplit (address : BitVec 8) (register : Option String) (value : BitVec 8) :
      (registerLabels verb short letter address register value).headD "" =
        verb ++ " " ++ register.getD "UNKNOWN" ++ codesText (address, value) := by
    simp only [registerLabels, List.headD_cons, codesText, String.append_assoc]
  rw [hsplit, hsplit] at h
  exact legible_codesText.of_end length_codesText h

theorem overflow_headline_ne (value : BitVec 16) :
    overflow.headline ≠ (muxWrite value).headline := by
  intro h
  have hmux : (muxWrite value).headline =
      "Control mux write 0x" ++
        (muxByte value ++ " " ++ ", ".intercalate (activeOutputs value)) := by
    simp only [headline, labels, List.headD_cons, String.append_assoc]
  rw [hmux] at h
  have hfirst := congrArg (fun text => text.toList.head?) h
  rw [String.toList_append, List.head?_append_of_ne_nil _ (by decide)] at hfirst
  exact absurd hfirst (by decide)

/-- Within a category the text of an event tells what the event is about. -/
theorem alike_of_headline (hc : c.named names = c) (hd : d.named names = d)
    (hcategory : c.category = d.category) (h : c.headline = d.headline) : c.Alike d := by
  -- A name follows from the code that it names.
  have hsame (hnamed : c.named names = d.named names) : c.Alike d := by
    rw [hc, hd] at hnamed
    exact hnamed ▸ .same c
  cases c with
  | selection device =>
      cases d with
      | selection other =>
          have hdevice : "Device " ++ device.repr = "Device " ++ other.repr := h
          obtain rfl := Nat.repr_injective ((String.append_right_inj _).mp hdevice)
          exact .same _
      | _ => cases hcategory
  | registerWrite address register value =>
      cases d with
      | registerWrite address' register' value' =>
          obtain ⟨rfl, rfl⟩ := Prod.mk.inj (codes_of_registerLabels h)
          exact hsame rfl
      | _ => cases hcategory
  | registerRead address register value =>
      cases d with
      | registerRead address' register' value' =>
          obtain ⟨rfl, rfl⟩ := Prod.mk.inj (codes_of_registerLabels h)
          exact hsame rfl
      | _ => cases hcategory
  | dataWrite value =>
      cases d with
      | dataWrite other =>
          obtain rfl := legible_wordText.of_end length_wordText h
          exact .same _
      | _ => cases hcategory
  | dataRead value =>
      cases d with
      | dataRead other =>
          obtain rfl := legible_wordText.of_end length_wordText h
          exact .same _
      | _ => cases hcategory
  | command opcode mnemonic =>
      cases d with
      | command opcode' mnemonic' =>
          obtain ⟨rfl, -⟩ := (legible_byteText.between "Command 0x" ": ").of_beginning h
          exact hsame rfl
      | _ => cases hcategory
  | packet opcode mnemonic =>
      cases d with
      | packet opcode' mnemonic' =>
          obtain ⟨rfl, -⟩ := (legible_byteText.between "ATAPI command 0x" ": ").of_beginning h
          exact hsame rfl
      | _ => cases hcategory
  | transfer direction words =>
      cases d with
      | transfer direction' words' =>
          obtain ⟨rfl, hwords⟩ :=
            legible_direction.of_beginning ((String.append_left_inj _).mp h)
          obtain rfl := Nat.repr_injective hwords
          exact .same _
      | _ => cases hcategory
  | status value =>
      cases d with
      | status other =>
          obtain ⟨rfl, -⟩ := (legible_byteText.between "Status 0x" " ").of_beginning h
          exact .same _
      | _ => cases hcategory
  -- These two share a category, and their texts begin with different letters.
  | overflow =>
      cases d with
      | overflow => exact .same _
      | muxWrite other => exact absurd h (overflow_headline_ne other)
      | _ => cases hcategory
  | muxWrite value =>
      cases d with
      | overflow => exact absurd h.symm (overflow_headline_ne value)
      | muxWrite other =>
          exact .muxWrite
            ((legible_muxByte.between "Control mux write 0x" " ").of_beginning h).1
      | _ => cases hcategory

end Content

/-! ### Lines -/

def Event.span (e : Event) : String :=
  e.start.repr ++ (".." ++ (e.stop.repr ++ (" " ++ (e.category.id ++ " "))))

theorem Event.legible_span : Legible Event.span fun a b =>
    a.start = b.start ∧ a.stop = b.stop ∧ a.category = b.category := by
  have hcategory : Legible (fun e : Event => e.category.id ++ " ")
      fun a b => a.category = b.category :=
    .closed rfl (fun e => by cases e.category <;> decide) fun _ _ => Category.id_inj
  have hstop := ((Legible.const " ").append hcategory).repr_append Event.stop fun e =>
    ⟨' ', _, String.toList_append, by decide⟩
  have hstart := ((Legible.const "..").append hstop).repr_append Event.start fun e =>
    ⟨'.', _, String.toList_append, by decide⟩
  exact hstart.congr fun a b => by simp only [true_and]

/-- The same, up to what a log does not show of the content. -/
def Event.Alike (a b : Event) : Prop :=
  a.start = b.start ∧ a.stop = b.stop ∧ a.content.Alike b.content

variable {names : Names}

theorem Event.line_eq_iff {a b : Event} (ha : a.named names = a) (hb : b.named names = b) :
    a.span ++ a.content.headline = b.span ++ b.content.headline ↔ a.Alike b := by
  constructor
  · intro h
    obtain ⟨⟨hstart, hstop, hcategory⟩, htext⟩ := legible_span.of_beginning h
    exact ⟨hstart, hstop,
      Content.alike_of_headline (congrArg Event.content ha)
        (congrArg Event.content hb) hcategory htext⟩
  · rintro ⟨hstart, hstop, hcontent⟩
    have hcategory : a.category = b.category := hcontent.category_eq
    have hspan : a.span = b.span := by rw [span, span, hstart, hstop, hcategory]
    rw [hspan, hcontent.headline_eq]

/-- A line ends with its line break, so it is legible under names that have none. -/
theorem Event.legible_logLine (hnames : names.Unbroken) :
    Legible (fun e : Event => (e.named names).logLine) fun a b =>
      (a.named names).Alike (b.named names) := by
  have hline (e : Event) : e.logLine = e.span ++ e.content.headline ++ "\n" := by
    simp only [logLine, span, String.append_assoc]
  have hfree (e : Event) :
      OneLine ((e.named names).span ++ (e.named names).content.headline) := by
    obtain ⟨text, htext, heq⟩ := logLine_eq hnames (named_named e)
    rw [hline, String.append_left_inj] at heq
    exact heq ▸ htext
  simp only [hline]
  exact .closed rfl hfree fun a b => line_eq_iff (named_named a) (named_named b)

theorem Event.logLine_ne_empty (e : Event) : e.logLine ≠ "" := by
  simp [logLine]

namespace Log

theorem lines_eq_iff (hnames : names.Unbroken) {xs ys : List Event}
    (hxs : ∀ e ∈ xs, e.named names = e) (hys : ∀ e ∈ ys, e.named names = e) :
    String.join (xs.map Event.logLine) = String.join (ys.map Event.logLine) ↔
    List.Forall₂ Event.Alike xs ys := by
  have hnamed {events : List Event} (h : ∀ e ∈ events, e.named names = e) :
      events.map (·.named names) = events :=
    (List.map_congr_left h).trans (List.map_id events)
  rw [← hnamed hxs, ← hnamed hys, List.map_map, List.map_map, List.forall₂_map_left_iff,
    List.forall₂_map_right_iff]
  exact (Event.legible_logLine hnames).join_eq_iff fun e =>
    Event.logLine_ne_empty (e.named names)

theorem deliver_unlimited (events : List Event) :
    Monitor.deliver Log.sink { output := .unlimited } 0 events =
      (none,
        { output := { held := (String.join (events.map Event.logLine)).toUTF8 }
          count := events.length }, events.length) := by
  have htakes := takes_unlimited .empty 0 events
  rw [ByteArray.empty_append, Nat.zero_add, text_eq] at htakes
  rw [Output.unlimited, Sink.deliver_of_takes htakes, Nat.zero_add]

/-- A log tells its events, whatever they are called: under names without line breaks, the logs
of two lists of events are the same text just when the lists have as many events, and these
have the same spans and the same contents, one by one, up to the low bytes of writes to the
control mux. And a log has as many lines as it counts. -/
theorem deliver_eq_iff (hnames : names.Unbroken) {xs ys : List Event}
    (hxs : ∀ e ∈ xs, e.named names = e) (hys : ∀ e ∈ ys, e.named names = e) :
    ∃ first second : String,
      Monitor.deliver Log.sink { output := .unlimited } 0 xs =
        (none, { output := { held := first.toUTF8 }, count := xs.length }, xs.length) ∧
      Monitor.deliver Log.sink { output := .unlimited } 0 ys =
        (none, { output := { held := second.toUTF8 }, count := ys.length }, ys.length) ∧
      (first.toUTF8 = second.toUTF8 ↔ List.Forall₂ Event.Alike xs ys) ∧
      first.toList.count '\n' = xs.length ∧ second.toList.count '\n' = ys.length := by
  refine ⟨_, _, deliver_unlimited xs, deliver_unlimited ys, ?_, count_lines fun e he => ?_,
    count_lines fun e he => ?_⟩
  · rw [String.toUTF8_eq_toByteArray, String.toUTF8_eq_toByteArray, String.toByteArray_inj]
    exact lines_eq_iff hnames hxs hys
  · exact Event.logLine_eq hnames (hxs e he)
  · exact Event.logLine_eq hnames (hys e he)

/-- A register with a name like the end of a line, and a command with a name like a whole one.
Two lists of events differ in the low byte of a write to the control mux, and have the same
log; a third has a write to the register that the name imitates, and has another. -/
theorem deliver_eq_iff_imitation :
    let names : Names :=
      { Names.empty with
        written := .ofList [(0x16, "A (0x15): value 0x20"), (0x15, "A")]
        commands := .ofList [(0x20, "X 0..1 cmd Command 0x21: Y")] }
    let command : Event := ⟨0, 90, .command 0x20 (some "X 0..1 cmd Command 0x21: Y")⟩
    let write : Event := ⟨10, 20, .registerWrite 0x16 (some "A (0x15): value 0x20") 0x5A⟩
    let other : Event := ⟨10, 20, .registerWrite 0x15 (some "A") 0x20⟩
    let xs := [command, write, ⟨30, 80, .muxWrite 0x4C01⟩]
    let ys := [command, write, ⟨30, 80, .muxWrite 0x4CFF⟩]
    let zs := [command, other, ⟨30, 80, .muxWrite 0x4C01⟩]
    (∀ e ∈ xs ++ ys ++ zs, e.named names = e) ∧
      (∃ log : Log, Monitor.deliver Log.sink { output := .unlimited } 0 xs = (none, log, 3) ∧
        Monitor.deliver Log.sink { output := .unlimited } 0 ys = (none, log, 3)) ∧
      ∃ first second : Log,
        Monitor.deliver Log.sink { output := .unlimited } 0 xs = (none, first, 3) ∧
        Monitor.deliver Log.sink { output := .unlimited } 0 zs = (none, second, 3) ∧
        first.output.held ≠ second.output.held := by
  intro names command write other xs ys zs
  have hnames : names.OneLine := ⟨by decide, by decide, by decide, by decide⟩
  have hxs : ∀ e ∈ xs, e.named names = e := by decide
  have hys : ∀ e ∈ ys, e.named names = e := by decide
  have hzs : ∀ e ∈ zs, e.named names = e := by decide
  refine ⟨by decide, ?_, ?_⟩
  · obtain ⟨first, second, hfirst, hsecond, hiff, -⟩ := deliver_eq_iff hnames.unbroken hxs hys
    have hlow : List.Forall₂ Event.Alike xs ys :=
      .cons ⟨rfl, rfl, .same _⟩
        (.cons ⟨rfl, rfl, .same _⟩ (.cons ⟨rfl, rfl, .muxWrite (by decide)⟩ .nil))
    exact ⟨_, hfirst, hiff.mpr hlow ▸ hsecond⟩
  · obtain ⟨first, second, hfirst, hsecond, hiff, -⟩ := deliver_eq_iff hnames.unbroken hxs hzs
    refine ⟨_, _, hfirst, hsecond, fun heq => ?_⟩
    obtain ⟨-, hrest⟩ := List.forall₂_cons.mp (hiff.mp heq)
    obtain ⟨⟨-, -, hcontent⟩, -⟩ := List.forall₂_cons.mp hrest
    cases hcontent

end Log

end AtaCapture.Ata
