import AtaCapture.Proofs.Ata.OnePass

/-!
Where a run looks at the bus. Between two looks the loops of the monitor only take samples, so
at every look the cursor stands behind the sample that is looked at, and the next one it can
show is the next one of the capture.
-/

namespace AtaCapture.Ata.Monitor

variable {m : Monitor} {samples rest : List Sample} {c : Cursor} {w : Watch} {p s : Sample}

/-! ### The loops take samples in a row -/

end AtaCapture.Ata.Monitor
