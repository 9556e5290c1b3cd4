import AtaCapture.Ata.Event
import AtaCapture.Ata.Flags
import AtaCapture.Instances
import AtaCapture.Text.Numeral

/-!
Labels. Every event has texts of several lengths, the longest first, so that a viewer can pick
the one it has room for. The longest is also what logs show, behind the span and the category.
-/

namespace AtaCapture.Ata

def byteText (b : BitVec 8) : String := Numeral.upperHex 2 b.toNat

def wordText (w : BitVec 16) : String := Numeral.upperHex 4 w.toNat

def registerLabels (verb short letter : String) (address : BitVec 8) (register : Option String)
    (value : BitVec 8) : List String :=
  let name := register.getD "UNKNOWN"
  [verb ++ " " ++ name ++ " (0x" ++ byteText address ++ "): value 0x" ++ byteText value,
    short ++ " " ++ name ++ " " ++ byteText value,
    letter ++ " " ++ byteText value]

/-- The control mux is driven by the high byte of the data lines. -/
def muxByte (value : BitVec 16) : String := Numeral.lowerHex 2 (value.toNat / 2 ^ 8)

namespace Content

def labels : Content → List String
  | .selection device => ["Device " ++ device.repr, "D" ++ device.repr]
  | .registerWrite address register value =>
    registerLabels "Write" "WR" "W" address register value
  | .registerRead address register value =>
    registerLabels "Read" "RD" "R" address register value
  | .dataWrite value => ["Write data 0x" ++ wordText value, "W " ++ wordText value]
  | .dataRead value =>
      ["Read data 0x" ++ wordText value, "R " ++ Numeral.lowerHex 4 value.toNat]
  | .command opcode mnemonic =>
    let name := mnemonic.getD "(unknown cmd)"
    ["Command 0x" ++ byteText opcode ++ ": " ++ name, "CMD " ++ name, "C " ++ byteText opcode]
  | .packet opcode mnemonic =>
    let name := mnemonic.getD "(unknown ATAPI cmd)"
    ["ATAPI command 0x" ++ byteText opcode ++ ": " ++ name, "ATAPI " ++ name,
      "A " ++ byteText opcode]
  | .transfer direction words =>
    ["Data " ++ direction.word ++ " " ++ words.repr ++ " words", "D " ++ words.repr]
  | .status value =>
    ["Status 0x" ++ byteText value ++ " " ++ " ".intercalate (statusFlags value),
      "S " ++ byteText value]
  | .overflow => ["Sniffer capture overflow, lost samples", "Capture overflow", "Overflow"]
  | .muxWrite value =>
    ["Control mux write 0x" ++ muxByte value ++ " " ++ ", ".intercalate (activeOutputs value),
      "Ctrl Mux 0x" ++ muxByte value, muxByte value]

def headline (c : Content) : String := c.labels.headD ""

end Content

def Event.logLine (e : Event) : String :=
  e.start.repr ++ ".." ++ e.stop.repr ++ " " ++ e.category.id ++ " " ++ e.content.headline ++
    "\n"

end AtaCapture.Ata
