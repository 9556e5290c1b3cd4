import AtaCapture.Ata.Event

/-!
What goes on at the register interface. A command, a packet, a data transfer, a status poll and
a device selection can be under way at the same time, at most one of each. Every access may end
some of them, which is then reported up to that access, and may begin or carry on another. The
parts do not depend on each other, except that a packet is the continuation of a command.
-/

namespace AtaCapture.Ata

structure OpenCommand where
  start : Nat
  opcode : BitVec 8
  deriving DecidableEq, Repr, Inhabited

structure OpenTransfer where
  start : Nat
  direction : Direction
  words : Nat
  deriving DecidableEq, Repr, Inhabited

structure OpenPoll where
  start : Nat
  value : BitVec 8
  deriving DecidableEq, Repr, Inhabited

structure OpenSelection where
  start : Nat
  device : Nat
  deriving DecidableEq, Repr, Inhabited

structure Commands where
  command : Option OpenCommand := none
  packet : Option OpenCommand := none
  deriving DecidableEq, Repr, Inhabited

structure Activity where
  commands : Commands := {}
  transfer : Option OpenTransfer := none
  poll : Option OpenPoll := none
  selection : Option OpenSelection := none
  deriving DecidableEq, Repr, Inhabited

/-! ### Ends -/

def OpenCommand.commandEvent (names : Names) (stop : Nat) (c : OpenCommand) : Event :=
  { start := c.start, stop, content := .command c.opcode (names.command c.opcode) }

def OpenCommand.packetEvent (names : Names) (stop : Nat) (c : OpenCommand) : Event :=
  { start := c.start, stop, content := .packet c.opcode (names.packet c.opcode) }

def OpenTransfer.event (stop : Nat) (t : OpenTransfer) : Event :=
  { start := t.start, stop, content := .transfer t.direction t.words }

def OpenPoll.event (stop : Nat) (p : OpenPoll) : Event :=
  { start := p.start, stop, content := .status p.value }

def OpenSelection.event (stop : Nat) (s : OpenSelection) : Event :=
  { start := s.start, stop, content := .selection s.device }

/-! ### One access -/

def OpenCommand.sendsPacket (c : OpenCommand) (x : Access) : Bool :=
  x.writesData && c.opcode = packetOpcode

namespace Commands

/-- A new command or a device selection ends what is under way. The first data word of a packet
command ends the command and begins the packet. -/
def step (names : Names) (c : Commands) (x : Access) : List Event × Commands :=
  let breaks := x.writesCommand || x.writesDevice
  let sends := c.command.any (·.sendsPacket x)
  let packetEnds := if breaks then c.packet else none
  let commandEnds := if breaks || sends then c.command else none
  let packet := if sends then some { start := x.start, opcode := x.low }
    else if breaks then none else c.packet
  let command := if x.writesCommand then some { start := x.start, opcode := x.low }
    else if breaks || sends then none else c.command
  ((packetEnds.map (·.packetEvent names x.start)).toList ++
    (commandEnds.map (·.commandEvent names x.start)).toList, { command, packet })

end Commands

/-- A transfer lasts while the accesses are data in one direction. -/
def stepTransfer (t : Option OpenTransfer) (x : Access) : List Event × Option OpenTransfer :=
  let continues := t.filter fun t => x.isData && t.direction = x.direction
  let ended := if continues.isSome then none else t
  let fresh : OpenTransfer := { start := x.start, direction := x.direction, words := 0 }
  let now := if x.isData then
      let t := continues.getD fresh
      some { t with words := t.words + 1 }
    else none
  ((ended.map (·.event x.start)).toList, now)

/-- A poll lasts while the status registers give one value; a new command or a device selection
ends it as well, and other accesses leave it alone. -/
def stepPoll (p : Option OpenPoll) (x : Access) : List Event × Option OpenPoll :=
  if x.readsStatus then
    if p.any (·.value = x.low) then ([], p)
    else ((p.map (·.event x.start)).toList, some { start := x.start, value := x.low })
  else if x.writesCommand || x.writesDevice then ((p.map (·.event x.start)).toList, none)
  else ([], p)

/-- A selection lasts until the other device is selected. -/
def stepSelection (s : Option OpenSelection) (x : Access) :
    List Event × Option OpenSelection :=
  if x.writesDevice then
    if s.any (·.device = x.selected) then ([], s)
    else ((s.map (·.event x.start)).toList, some { start := x.start, device := x.selected })
  else ([], s)

namespace Activity

def idle : Activity := {}

def isOpen (a : Activity) : Bool :=
  a.commands.command.isSome || a.commands.packet.isSome || a.transfer.isSome ||
    a.poll.isSome || a.selection.isSome

/-- One access: what it ends, in the order packet, command, transfer, poll, selection, and what
is under way after it. -/
def step (names : Names) (a : Activity) (x : Access) : List Event × Activity :=
  let (commandEvents, commands) := a.commands.step names x
  let (transferEvents, transfer) := stepTransfer a.transfer x
  let (pollEvents, poll) := stepPoll a.poll x
  let (selectionEvents, selection) := stepSelection a.selection x
  (commandEvents ++ transferEvents ++ pollEvents ++ selectionEvents,
    { commands, transfer, poll, selection })

/-- The selection that ends everything at `time`: that of the device which is not selected. -/
def farewell (a : Activity) (time : Nat) : Access where
  start := time
  stop := time
  direction := .write
  address := Register.device
  value := if a.selection.any (·.device = 1) then 0x00 else 0x10

/-- The end of the capture. What is under way ends as if the other device were selected, and
that selection itself is forgotten. -/
def finish (names : Names) (a : Activity) (time : Nat) : List Event × Activity :=
  let (events, a) := a.step names (a.farewell time)
  (events, { a with selection := none })

/-- The events of a whole sequence of accesses that ends at `time`. -/
def timeline (names : Names) (a : Activity) (time : Nat) : List Access → List Event
  | [] => (a.finish names time).1
  | x :: xs =>
    let (events, a) := a.step names x
    events ++ a.timeline names time xs

end Activity

end AtaCapture.Ata
