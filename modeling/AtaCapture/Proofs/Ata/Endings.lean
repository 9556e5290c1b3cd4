import AtaCapture.Proofs.Ata.CommandSpans

/-!
What an access ends. A packet, a command, a transfer, a poll and a selection can be under way,
and for each there is a condition on the next access under which it ends. What ends is
reported, what does not goes on, and nothing is lost. The selection at the end of a capture
meets the conditions of all five, so that nothing is under way behind it.
-/

namespace AtaCapture.Ata

/-! ### When something ends -/

def OpenTransfer.endedBy (x : Access) (t : OpenTransfer) : Bool :=
  !(x.isData && t.direction = x.direction)

def OpenPoll.endedBy (x : Access) (p : OpenPoll) : Bool :=
  if x.readsStatus then p.value ≠ x.low else x.endsPacket

def OpenSelection.endedBy (x : Access) (s : OpenSelection) : Bool :=
  x.writesDevice && s.device ≠ x.selected

/-- What can be under way, in the order in which the ends are reported. -/
inductive Part where
  | packet
  | command
  | transfer
  | poll
  | selection
  deriving DecidableEq, Repr

def Part.all : List Part := [.packet, .command, .transfer, .poll, .selection]

inductive Call where
  | access (x : Access)
  | finish (time : Nat)
  /-- Everything under way is forgotten. -/
  | reset
  deriving DecidableEq, Repr

namespace Activity

def has (a : Activity) : Part → Bool
  | .packet => a.commands.packet.isSome
  | .command => a.commands.command.isSome
  | .transfer => a.transfer.isSome
  | .poll => a.poll.isSome
  | .selection => a.selection.isSome

def report (names : Names) (a : Activity) (stop : Nat) : Part → Option Event
  | .packet => a.commands.packet.map (·.packetEvent names stop)
  | .command => a.commands.command.map (·.commandEvent names stop)
  | .transfer => a.transfer.map (·.event stop)
  | .poll => a.poll.map (·.event stop)
  | .selection => a.selection.map (·.event stop)

def endedBy (a : Activity) (x : Access) : Part → Bool
  | .packet => a.commands.packet.any fun _ => x.endsPacket
  | .command => a.commands.command.any fun c => x.endsCommand c.opcode
  | .transfer => a.transfer.any (·.endedBy x)
  | .poll => a.poll.any (·.endedBy x)
  | .selection => a.selection.any (·.endedBy x)

def outlasts (a : Activity) (x : Access) (p : Part) : Bool := a.has p && !a.endedBy x p

def ending (names : Names) (a : Activity) (x : Access) (p : Part) : Option Event :=
  if a.endedBy x p then a.report names x.start p else none

/-- What an access begins, were nothing under way but the command. -/
def begun (a : Activity) (x : Access) : Activity where
  commands.command :=
    if x.writesCommand then some { start := x.start, opcode := x.low } else none
  commands.packet :=
    if a.commands.command.any (·.sendsPacket x) then
      some { start := x.start, opcode := x.low }
    else none
  transfer :=
    if x.isData then some { start := x.start, direction := x.direction, words := 1 } else none
  poll := if x.readsStatus then some { start := x.start, value := x.low } else none
  selection := if x.writesDevice then some { start := x.start, device := x.selected } else none

def countWord (a : Activity) : Activity :=
  { a with transfer := a.transfer.map fun t => { t with words := t.words + 1 } }

def call (names : Names) (a : Activity) : Call → List Event × Activity
  | .access x => a.step names x
  | .finish time => a.finish names time
  | .reset => ([], idle)

def afterCalls (names : Names) (a : Activity) (calls : List Call) : Activity :=
  calls.foldl (fun a c => (a.call names c).2) a

end Activity

/-! ### One access -/

theorem Access.endsPacket_of_writesDevice {x : Access} (h : x.writesDevice) : x.endsPacket :=
  Bool.or_eq_true_iff.mpr (.inr h)

theorem Access.endsCommand_eq (c : OpenCommand) (x : Access) :
    x.endsCommand c.opcode = (x.endsPacket || c.sendsPacket x) := rfl

section

variable (x : Access)

theorem stepTransfer_none :
    stepTransfer none x = ([], if x.isData then
      some { start := x.start, direction := x.direction, words := 1 } else none) := rfl

theorem stepTransfer_some (t : OpenTransfer) :
    stepTransfer (some t) x =
      if t.endedBy x then ([t.event x.start], if x.isData then
        some { start := x.start, direction := x.direction, words := 1 } else none)
      else ([], some { t with words := t.words + 1 }) := by
  rw [stepTransfer, Option.filter_some, OpenTransfer.endedBy]
  cases hdata : x.isData
  · rfl
  · by_cases hsame : t.direction = x.direction <;> simp [hsame]

theorem stepPoll_none :
    stepPoll none x =
      ([], if x.readsStatus then some { start := x.start, value := x.low } else none) := by
  cases hreads : x.readsStatus <;> simp [stepPoll, hreads]

theorem stepPoll_some (p : OpenPoll) :
    stepPoll (some p) x =
      if p.endedBy x then ([p.event x.start], if x.readsStatus then
        some { start := x.start, value := x.low } else none)
      else ([], some p) := by
  rw [stepPoll, show (x.writesCommand || x.writesDevice) = x.endsPacket from rfl,
    OpenPoll.endedBy]
  cases hreads : x.readsStatus
  · simp
  · by_cases hsame : p.value = x.low <;> simp [hsame]

theorem stepSelection_none :
    stepSelection none x =
      ([], if x.writesDevice then some { start := x.start, device := x.selected }
        else none) := by
  cases hwrites : x.writesDevice <;> simp [stepSelection, hwrites]

theorem stepSelection_some (s : OpenSelection) :
    stepSelection (some s) x =
      if s.endedBy x then ([s.event x.start], if x.writesDevice then
        some { start := x.start, device := x.selected } else none)
      else ([], some s) := by
  rw [stepSelection, OpenSelection.endedBy]
  cases hwrites : x.writesDevice
  · simp
  · by_cases hsame : s.device = x.selected <;> simp [hsame]

end

namespace Activity

variable {names : Names} {a : Activity} {x : Access}

/-- What ends a command is what ends a packet, and the data word it waits for. -/
theorem commands_step_ends (names : Names) (a : Activity) (x : Access) :
    (a.commands.step names x).1 =
      (a.ending names x .packet).toList ++ (a.ending names x .command).toList := by
  have hpacket : (if x.endsPacket then a.commands.packet else none).map
      (·.packetEvent names x.start) = a.ending names x .packet := by
    rw [ending, endedBy, report]
    cases a.commands.packet <;> cases x.endsPacket <;> rfl
  have hcommand : (if x.endsPacket || a.commands.command.any (·.sendsPacket x) then
      a.commands.command else none).map (·.commandEvent names x.start) =
        a.ending names x .command := by
    rw [ending, endedBy, report]
    cases a.commands.command with
    | none => cases x.endsPacket <;> rfl
    | some c =>
        rw [Option.any_some, Option.any_some, Access.endsCommand_eq]
        split <;> rfl
  rw [← hpacket, ← hcommand]
  rfl

theorem toList_ending (names : Names) (a : Activity) (x : Access) (p : Part) :
    (a.ending names x p).toList = [p].filterMap (a.ending names x) := by
  cases h : a.ending names x p <;> simp [h]

theorem step_ends (names : Names) (a : Activity) (x : Access) :
    (a.step names x).1 = Part.all.filterMap (a.ending names x) := by
  have htransfer : (stepTransfer a.transfer x).1 = (a.ending names x .transfer).toList := by
    rw [ending, endedBy, report]
    cases a.transfer with
    | none => rfl
    | some t =>
        rw [stepTransfer_some, Option.any_some]
        split <;> rfl
  have hpoll : (stepPoll a.poll x).1 = (a.ending names x .poll).toList := by
    rw [ending, endedBy, report]
    cases a.poll with
    | none => rw [stepPoll_none]; rfl
    | some p =>
        rw [stepPoll_some, Option.any_some]
        split <;> rfl
  have hselection : (stepSelection a.selection x).1 =
      (a.ending names x .selection).toList := by
    rw [ending, endedBy, report]
    cases a.selection with
    | none => rw [stepSelection_none]; rfl
    | some s =>
        rw [stepSelection_some, Option.any_some]
        split <;> rfl
  rw [step_events, commands_step_ends, htransfer, hpoll, hselection]
  simp only [toList_ending, ← List.filterMap_append]
  rfl

/-- Behind an access a part is as before, but for one more word of data, or what the access
begins. -/
theorem report_step (hsingle : a.commands.Single) (x : Access) (stop : Nat) (p : Part) :
    (a.step names x).2.report names stop p =
      if a.outlasts x p then a.countWord.report names stop p else
        (a.begun x).report names stop p := by
  obtain ⟨⟨command, packet⟩, transfer, poll, selection⟩ := a
  cases p with
  | packet =>
      have hnext : (Commands.step names ⟨command, packet⟩ x).2.packet =
          if command.any (·.sendsPacket x) then some { start := x.start, opcode := x.low }
          else if x.endsPacket then none else packet := rfl
      show (Commands.step names ⟨command, packet⟩ x).2.packet.map _ = _
      rw [hnext]
      cases packet with
      | none => simp [outlasts, has, report, begun]
      | some o =>
          -- A packet is under way alone, so no other one takes its place.
          obtain rfl : command = none := hsingle.resolve_right (Option.some_ne_none o)
          cases hends : x.endsPacket <;>
            simp [outlasts, has, endedBy, hends, report, countWord, begun]
  | command =>
      have hnext : (Commands.step names ⟨command, packet⟩ x).2.command =
          if x.writesCommand then some { start := x.start, opcode := x.low }
          else if x.endsPacket || command.any (·.sendsPacket x) then none else command := rfl
      show (Commands.step names ⟨command, packet⟩ x).2.command.map _ = _
      rw [hnext]
      cases command with
      | none => simp [outlasts, has, report, begun]
      | some o =>
          cases hcommand : x.writesCommand <;> cases hdevice : x.writesDevice <;>
            cases hsends : o.sendsPacket x <;>
              simp [outlasts, has, endedBy, Access.endsCommand_eq, Access.endsPacket, hcommand,
                hdevice, hsends, report, countWord, begun]
  | transfer =>
      cases transfer with
      | none => rfl
      | some t =>
          show (stepTransfer (some t) x).2.map _ = _
          rw [stepTransfer_some]
          cases hends : t.endedBy x <;>
            simp [outlasts, has, endedBy, report, countWord, begun, hends]
  | poll =>
      show (stepPoll poll x).2.map _ = _
      cases poll with
      | none => rw [stepPoll_none]; rfl
      | some p =>
          rw [stepPoll_some]
          cases hends : p.endedBy x <;>
            simp [outlasts, has, endedBy, report, countWord, begun, hends]
  | selection =>
      show (stepSelection selection x).2.map _ = _
      cases selection with
      | none => rw [stepSelection_none]; rfl
      | some s =>
          rw [stepSelection_some]
          cases hends : s.endedBy x <;>
            simp [outlasts, has, endedBy, report, countWord, begun, hends]

/-! ### The end of a capture -/

theorem report_of_not_has (names : Names) (stop : Nat) {p : Part} (h : a.has p = false) :
    a.report names stop p = none := by
  cases p <;> simp_all [has, report]

theorem endedBy_farewell (a : Activity) (stop : Nat) (p : Part) :
    a.endedBy (a.farewell stop) p = a.has p := by
  have hselected :
      (a.farewell stop).selected = if a.selection.any (·.device = 1) then 0 else 1 := by
    rw [farewell, Access.selected]
    split <;> dsimp only <;> decide
  obtain ⟨⟨command, packet⟩, transfer, poll, selection⟩ := a
  cases p with
  | packet => cases packet <;> rfl
  | command => cases command <;> rfl
  | transfer => cases transfer <;> rfl
  | poll => cases poll <;> rfl
  | selection =>
      cases selection with
      | none => rfl
      | some s =>
          by_cases hdevice : s.device = 1 <;>
            simp_all [endedBy, has, OpenSelection.endedBy, farewell_writesDevice]

/-- Whatever is under way is reported once, and nothing stays. -/
theorem finish_eq (names : Names) (a : Activity) (time : Nat) :
    a.finish names time = (Part.all.filterMap (a.report names time), idle) := by
  have hending : a.ending names (a.farewell time) = a.report names time := by
    funext p
    rw [ending, endedBy_farewell]
    cases hp : a.has p with
    | true => rfl
    | false => rw [report_of_not_has names time hp]; rfl
  refine Prod.ext ?_ ?_
  · show (a.step names (a.farewell time)).1 = _
    rw [step_ends, hending]
  · have hcommands : (a.commands.step names (a.farewell time)).2 = {} := by
      rw [Commands.step_of_endsPacket
        (Access.endsPacket_of_writesDevice (a.farewell_writesDevice time))]
      rfl
    have htransfer : (stepTransfer a.transfer (a.farewell time)).2 = none := by
      cases a.transfer <;> rfl
    have hpoll : (stepPoll a.poll (a.farewell time)).2 = none := by
      cases a.poll <;> rfl
    show (⟨(a.commands.step names (a.farewell time)).2,
      (stepTransfer a.transfer (a.farewell time)).2,
      (stepPoll a.poll (a.farewell time)).2, none⟩ : Activity) = idle
    rw [hcommands, htransfer, hpoll]
    rfl

/-! ### Any calls -/

theorem single_call (ha : a.commands.Single) (names : Names) (c : Call) :
    (a.call names c).2.commands.Single := by
  cases c with
  | access x => exact ha.step names x
  | finish time =>
      rw [call, finish_eq]
      exact .inl rfl
  | reset => exact .inl rfl

theorem single_afterCalls (ha : a.commands.Single) (names : Names) (calls : List Call) :
    (a.afterCalls names calls).commands.Single := by
  induction calls generalizing a with
  | nil => exact ha
  | cons c calls ih => exact ih (single_call ha names c)

theorem stop_report (names : Names) (a : Activity) (stop : Nat) (p : Part) :
    (a.report names stop p).map (·.stop) = if a.has p then some stop else none := by
  cases p <;> rw [report, Option.map_map, has]
  · cases a.commands.packet <;> rfl
  · cases a.commands.command <;> rfl
  · cases a.transfer <;> rfl
  · cases a.poll <;> rfl
  · cases a.selection <;> rfl

theorem start_report_begun (names : Names) (a : Activity) (x : Access) (stop : Nat)
    (p : Part) :
    ((a.begun x).report names stop p).map (·.start) =
      if (a.begun x).has p then some x.start else none := by
  cases p <;> rw [report, Option.map_map, has, begun] <;> dsimp only <;> split <;> rfl

/-- Whatever is asked of the activity, a command and a packet are not under way together. An
access reports the parts that it ends, in their order, each as it was under way and up to the
access. Behind it a part that went on is as before, but for one more word of data, and any
other holds what the access begins. At the end everything under way is reported up to that
time, each part once and nothing else, and the activity is as at the start, where an end
reports nothing. -/
theorem parts_of_calls (names : Names) (calls : List Call) (x : Access) (time : Nat) :
    let a := idle.afterCalls names calls
    (a.commands.command = none ∨ a.commands.packet = none) ∧
    (a.step names x).1 = (Part.all.filter (a.endedBy x)).filterMap (a.report names x.start) ∧
    (∀ p stop, (a.report names stop p).map (·.stop) = if a.has p then some stop else none) ∧
    (∀ p stop, (a.step names x).2.report names stop p =
      if a.outlasts x p then a.countWord.report names stop p
      else (a.begun x).report names stop p) ∧
    (∀ p stop, ((a.begun x).report names stop p).map (·.start) =
      if (a.begun x).has p then some x.start else none) ∧
    (a.finish names time).1 = Part.all.filterMap (a.report names time) ∧
    (a.finish names time).2 = idle ∧ (a.finish names time).2.isOpen = false ∧
    ∀ later, ((a.finish names time).2.finish names later).1 = [] := by
  intro a
  have hsingle : a.commands.Single := single_afterCalls (.inl rfl) names calls
  have hends : (a.step names x).1 =
      (Part.all.filter (a.endedBy x)).filterMap (a.report names x.start) := by
    rw [step_ends, List.filterMap_filter]
    rfl
  have hfinish : a.finish names time = (Part.all.filterMap (a.report names time), idle) :=
    finish_eq names a time
  refine ⟨hsingle, hends, fun p stop => stop_report names a stop p,
    fun p stop => report_step hsingle x stop p,
    fun p stop => start_report_begun names a x stop p, ?_⟩
  rw [hfinish]
  exact ⟨rfl, rfl, rfl, fun later => congrArg Prod.fst (finish_eq names idle later)⟩

end Activity

end AtaCapture.Ata
