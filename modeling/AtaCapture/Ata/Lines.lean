import AtaCapture.Ata.Access
import AtaCapture.Fault
import AtaCapture.Pinout
import AtaCapture.Sample

/-!
The lines of the bus within a capture. The strobes, five address lines and sixteen data lines
have to be found in the pinout, each as a line of its own or on the address or data bus; the
line that leads the data to the control mux may be missing.
-/

namespace AtaCapture.Ata

structure Lines where
  /-- The write strobe, active low. -/
  iow : Nat
  /-- The read strobe, active low. -/
  ior : Nat
  /-- The address lines and the two chip selects, the lowest address bit first. -/
  address : List Nat
  /-- The data lines, the lowest first. -/
  data : List Nat
  dataSelect : Option Nat
  deriving DecidableEq, Repr, Inhabited

/-- A line under its own name, and as a member of a bus. -/
structure LineName where
  line : String
  bus : String
  index : Nat
  deriving DecidableEq, Repr

namespace LineName

def single (line : String) : LineName := { line, bus := line, index := 0 }

def iow : LineName := single "DIOW"

def ior : LineName := single "DIOR"

def address : List LineName :=
  [⟨"DA0", "DA", 0⟩, ⟨"DA1", "DA", 1⟩, ⟨"DA2", "DA", 2⟩, single "CS0", single "CS1"]

def data : List LineName := (List.range 16).map fun i => ⟨s!"D{i}", "DATA", i⟩

def dataSelect : LineName := single "DATA_SEL"

def locate (n : LineName) (p : Pinout) : Option Nat := p.lineOffset n.line n.bus n.index

def resolve (n : LineName) (p : Pinout) : Except Fault Nat :=
  match n.locate p with
  | some bit => .ok bit
  | none => .error (.missingLine n.line)

end LineName

namespace Lines

/-- The lines of the bus in a pinout. The data lines are looked for first. -/
def ofPinout (p : Pinout) : Except Fault Lines := do
  let data ← LineName.data.mapM (·.resolve p)
  let iow ← LineName.iow.resolve p
  let ior ← LineName.ior.resolve p
  let address ← LineName.address.mapM (·.resolve p)
  return { iow, ior, address, data, dataSelect := LineName.dataSelect.locate p }

def mask (offsets : List Nat) : Nat := offsets.foldl (fun m offset => m ||| 1 <<< offset) 0

def topData (l : Lines) : Nat := l.data.getLastD 0

/-- The lines whose changes are worth a look: the strobes and the highest data line. -/
def watched (l : Lines) : Nat := mask [l.iow, l.ior, l.topData]

def bus (l : Lines) : Nat := mask ([l.iow, l.ior] ++ l.address ++ l.data)

def strobe (l : Lines) : Direction → Nat
  | .read => l.ior
  | .write => l.iow

def addressOf (l : Lines) (s : Sample) : BitVec 8 := BitVec.ofNat 8 (s.scattered l.address)

def dataOf (l : Lines) (s : Sample) : BitVec 16 := BitVec.ofNat 16 (s.scattered l.data)

/-- Every line of the bus is low, which a working bus never shows. -/
def isDead (l : Lines) (s : Sample) : Bool := s.levels &&& l.bus = 0

/-- A strobe is high, as after the end of a capture gap. -/
def isAlive (l : Lines) (s : Sample) : Bool := s.level l.iow || s.level l.ior

/-- The access that a pulse of a strobe makes, by the last sample before the strobe rises. -/
def access (l : Lines) (direction : Direction) (start stop : Nat) (latched : Sample) :
    Access :=
  let address := l.addressOf latched
  let value := l.dataOf latched
  { start, stop, direction, address
    value := if address = Register.data then value else value &&& 0xFF }

end Lines

/-! ### Channels for viewers -/

structure Channel where
  id : String
  name : String
  description : String
  deriving DecidableEq, Repr

def channels : List Channel :=
  [⟨"iow", "DIOW", "I/O write strobe, active low"⟩,
    ⟨"ior", "DIOR", "I/O read strobe, active low"⟩, ⟨"da0", "DA0", "Address bit 0"⟩,
    ⟨"da1", "DA1", "Address bit 1"⟩, ⟨"da2", "DA2", "Address bit 2"⟩,
    ⟨"cs0", "CS0", "Chip select 0, active low"⟩, ⟨"cs1", "CS1", "Chip select 1, active low"⟩]
  ++ (List.range 16).map (fun i => ⟨s!"d{i}", s!"D{i}", s!"Data bit {i}"⟩)
  ++ [⟨"data_sel", "DATA_SEL", "Data bus routed to the control mux"⟩]

end AtaCapture.Ata
