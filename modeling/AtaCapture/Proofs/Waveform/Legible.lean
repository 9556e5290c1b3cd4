import AtaCapture.Proofs.Pinout.Tiling
import AtaCapture.Proofs.Sample
import AtaCapture.Proofs.Text.Legible
import AtaCapture.Proofs.Text.Lenient
import AtaCapture.Proofs.Waveform.Calls
import AtaCapture.Proofs.Waveform.Values

/-!
A waveform shows its samples. It declares its signals, and then the time of a sample is all
digits between the sign in front of it and the first value; a value is one digit, or as many as
its bus has lines. So a line tells the time unit and the level of every line of a signal,
whatever the symbols of the signals are, and the whole text tells the samples up to that. Where
the signals tile the lines of the pinout, as they do as long as these are counted in 32 bits,
it tells just the levels of the pinout.
-/

namespace AtaCapture

namespace Waveform

variable {p : Pinout} {s : Settings}

/-! ### Lines -/

end Waveform

end AtaCapture
