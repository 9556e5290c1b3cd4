import AtaCapture.Ata.Names

/-!
Events: what is reported about a capture. An event is a span of time and what happened in it;
names are those of the tables in force, absent where a table has no entry. Every event belongs
to one of ten categories, in the order in which viewers declare them.
-/

namespace AtaCapture.Ata

inductive Content where
  /-- The device that accesses were addressed to. -/
  | selection (device : Nat)
  | registerWrite (address : BitVec 8) (register : Option String) (value : BitVec 8)
  | registerRead (address : BitVec 8) (register : Option String) (value : BitVec 8)
  | dataWrite (value : BitVec 16)
  | dataRead (value : BitVec 16)
  | command (opcode : BitVec 8) (mnemonic : Option String)
  /-- A command sent as a packet. -/
  | packet (opcode : BitVec 8) (mnemonic : Option String)
  /-- Successive accesses to the data register in one direction. -/
  | transfer (direction : Direction) (words : Nat)
  /-- A status value as long as it was polled. -/
  | status (value : BitVec 8)
  /-- The recorder lost samples. -/
  | overflow
  /-- A short pulse on the data lines while they lead to the control mux. -/
  | muxWrite (value : BitVec 16)
  deriving DecidableEq, Repr, Inhabited

structure Event where
  start : Nat
  stop : Nat
  content : Content
  deriving DecidableEq, Repr, Inhabited

def Access.event (names : Names) (x : Access) : Event where
  start := x.start
  stop := x.stop
  content :=
    if x.isData then
      match x.direction with
      | .write => .dataWrite x.value
      | .read => .dataRead x.value
    else
      match x.direction with
      | .write => .registerWrite x.address (names.register .write x.address) x.low
      | .read => .registerRead x.address (names.register .read x.address) x.low

/-! ### Categories -/

inductive Category where
  | selection
  | registerWrite
  | registerRead
  | dataWrite
  | dataRead
  | command
  | transfer
  | status
  | packet
  | anomaly
  deriving DecidableEq, Repr, Inhabited

namespace Category

def all : List Category :=
  [.selection, .registerWrite, .registerRead, .dataWrite, .dataRead, .command, .transfer,
    .status, .packet, .anomaly]

def index : Category → Nat
  | .selection => 0
  | .registerWrite => 1
  | .registerRead => 2
  | .dataWrite => 3
  | .dataRead => 4
  | .command => 5
  | .transfer => 6
  | .status => 7
  | .packet => 8
  | .anomaly => 9

def id : Category → String
  | .selection => "device"
  | .registerWrite => "regwr"
  | .registerRead => "regrd"
  | .dataWrite => "datawr"
  | .dataRead => "datard"
  | .command => "cmd"
  | .transfer => "datatransfer"
  | .status => "status"
  | .packet => "atapi"
  | .anomaly => "event"

def description : Category → String
  | .selection => "Selected device"
  | .registerWrite => "Register writes"
  | .registerRead => "Register reads"
  | .dataWrite => "Data writes"
  | .dataRead => "Data reads"
  | .command => "Commands"
  | .transfer => "Data transfers"
  | .status => "Device status"
  | .packet => "ATAPI commands"
  | .anomaly => "Other events"

def ofId? (id : String) : Option Category := all.find? fun c => c.id = id

end Category

def Content.category : Content → Category
  | .selection _ => .selection
  | .registerWrite .. => .registerWrite
  | .registerRead .. => .registerRead
  | .dataWrite _ => .dataWrite
  | .dataRead _ => .dataRead
  | .command .. => .command
  | .packet .. => .packet
  | .transfer .. => .transfer
  | .status _ => .status
  | .overflow => .anomaly
  | .muxWrite _ => .anomaly

def Event.category (e : Event) : Category := e.content.category

end AtaCapture.Ata
