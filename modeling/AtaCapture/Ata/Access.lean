/-!
Register accesses. The host reads or writes a register of the device by a pulse on one of the
two strobes; address and data lines tell which register and what value. The data register is
sixteen bits wide, the others eight.
-/

namespace AtaCapture.Ata

inductive Direction where
  | read
  | write
  deriving DecidableEq, Repr, Inhabited

def Direction.word : Direction → String
  | .read => "read"
  | .write => "write"

/-! ### Addresses with a meaning of their own -/

namespace Register

/-- Device control when written, alternate status when read. -/
def control : BitVec 8 := 0x0E

def data : BitVec 8 := 0x10

def device : BitVec 8 := 0x16

/-- Command when written, status when read. -/
def command : BitVec 8 := 0x17

end Register

/-- The command whose packet follows as data words. -/
def packetOpcode : BitVec 8 := 0xA0

structure Access where
  /-- When the strobe falls. -/
  start : Nat
  /-- When the strobe rises. -/
  stop : Nat
  direction : Direction
  address : BitVec 8
  value : BitVec 16
  deriving DecidableEq, Repr, Inhabited

namespace Access

/-- The low byte of the value, which is all that most registers have. -/
def low (x : Access) : BitVec 8 := x.value.setWidth 8

def isData (x : Access) : Bool := x.address = Register.data

def writesData (x : Access) : Bool := x.direction = .write && x.address = Register.data

def writesCommand (x : Access) : Bool := x.direction = .write && x.address = Register.command

def writesDevice (x : Access) : Bool := x.direction = .write && x.address = Register.device

def readsStatus (x : Access) : Bool :=
  x.direction = .read && (x.address = Register.control || x.address = Register.command)

def selected (x : Access) : Nat := (x.value.getLsbD 4).toNat

end Access

end AtaCapture.Ata
