/-!
Bit fields with names: the status register, and the outputs of the control mux. An inverted
output is active when its bit is clear.
-/

namespace AtaCapture.Ata

def statusBits : List (Nat × String) :=
  [(7, "BSY(7)"), (6, "DRDY(6)"), (5, "DEVFAULT(5)"), (4, "SEEKDONE(4)"), (3, "DATAREQ(3)"),
    (2, "ERRCORR(2)"), (1, "IDX(1)"), (0, "ERR(0)")]

def statusFlags (value : BitVec 8) : List String :=
  (statusBits.filter fun flag => value.getLsbD flag.1).map Prod.snd

structure MuxOutput where
  bit : Nat
  inverted : Bool
  name : String
  deriving DecidableEq, Repr

def muxOutputs : List MuxOutput :=
  [⟨9, true, "EN_DMARQ"⟩, ⟨10, false, "OUT_DMARQ"⟩, ⟨11, true, "EN_INTRQ"⟩,
    ⟨12, false, "OUT_INTRQ"⟩, ⟨13, true, "OUT_DASP"⟩, ⟨14, true, "OUT_PDIAG"⟩]

def activeOutputs (value : BitVec 16) : List String :=
  (muxOutputs.filter fun output => value.getLsbD output.bit != output.inverted).map
    MuxOutput.name

end AtaCapture.Ata
