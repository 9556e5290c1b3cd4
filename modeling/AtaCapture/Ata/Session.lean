import AtaCapture.Ata.Access
import AtaCapture.Word.Recorder

/-!
Sessions: what a host does on the bus, written down as a capture in the recorder's own pinout.
The strobes are lines 0 and 1, the address lines start at 2 and the data lines at 8; an access
lowers its strobe at its start and raises it at its end.
-/

namespace AtaCapture.Ata

def restLevels (address : BitVec 8) (data : BitVec 16) : Nat :=
  3 ||| address.toNat <<< 2 ||| data.toNat <<< 8

def pulseLevels (direction : Direction) (address : BitVec 8) (data : BitVec 16) : Nat :=
  let strobes := match direction with
    | .write => 2
    | .read => 1
  strobes ||| address.toNat <<< 2 ||| data.toNat <<< 8

inductive SessionStep where
  /-- An address and a value stand on the bus from a time on. -/
  | rest (time : Nat) (address : BitVec 8) (data : BitVec 16)
  | access (x : Access)
  /-- The recorder loses samples. -/
  | loss (millis : Nat)
  deriving DecidableEq, Repr

namespace SessionStep

def record (r : Recorder) : SessionStep → Except Fault Recorder
  | .rest time address data => r.announce time (restLevels address data)
  | .access x => do
    let r ← r.announce x.start (pulseLevels x.direction x.address x.value)
    r.announce x.stop (restLevels x.address x.value)
  | .loss millis => .ok (r.markOverflow millis)

end SessionStep

def recordAll (r : Recorder) (session : List SessionStep) : Except Fault Recorder :=
  session.foldlM SessionStep.record r

/-! ### A short session to show -/

def everyFiveHundred (time : Nat) : List (Direction × BitVec 8 × BitVec 16) → List SessionStep
  | [] => []
  | (direction, address, value) :: rest =>
    .access { start := time, stop := time + 50, direction, address, value } ::
      everyFiveHundred (time + 500) rest

/-- A host selects the first device, sends it an inquiry packet, polls it until it is ready,
reads the answer and the final status. -/
def inquiryAccesses : List (Direction × BitVec 8 × BitVec 16) :=
  [(.write, Register.device, 0x00), (.write, Register.command, 0xA0)]
  ++ [0x0012, 0x0000, 0x0024, 0x0000, 0x0000, 0x0000].map
    (fun word => (.write, Register.data, word))
  ++ List.replicate 3 (.read, Register.control, 0x80)
  ++ [(.read, Register.control, 0x58)]
  ++ (List.range 18).map (fun i => (.read, Register.data, BitVec.ofNat 16 (0x0500 + i)))
  ++ [(.read, Register.command, 0x50)]

/-- The inquiry as a capture; in the end the recorder loses samples. -/
def inquiryCapture : Except Fault (List UInt8) := do
  let session := .rest 5 0 0 :: everyFiveHundred 100 inquiryAccesses ++ [.loss 1234]
  let r ← recordAll (.start .standard) session
  r.bytesUntil (r.time + 1000)

end AtaCapture.Ata
