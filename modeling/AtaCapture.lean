import AtaCapture.Ata.Automaton
import AtaCapture.Main
import AtaCapture.Text.Lenient
import AtaCapture.Word.Player
import AtaCapture.Program.Listing
import AtaCapture.Proofs.Word.Reading
import AtaCapture.Proofs.Word.RoundTrip
import AtaCapture.Proofs.Ata.CommandSpans
import AtaCapture.Proofs.Ata.OnePass
import AtaCapture.Proofs.Ata.Bus
import AtaCapture.Proofs.Ata.CaptureGaps
import AtaCapture.Proofs.Ata.Sessions
import AtaCapture.Proofs.Ata.Occurrences
import AtaCapture.Proofs.Ata.Looks
import AtaCapture.Proofs.Ata.Spans
import AtaCapture.Proofs.Ata.Levels
import AtaCapture.Proofs.Ata.Truncation
import AtaCapture.Proofs.Ata.Endings
import AtaCapture.Proofs.Ata.Deliveries
import AtaCapture.Proofs.Ata.Accounting
import AtaCapture.Proofs.Feed
import AtaCapture.Proofs.Word.Waveform
import AtaCapture.Proofs.Word.Faithful
import AtaCapture.Proofs.Word.Rerecording
import AtaCapture.Proofs.Word.Pieces
import AtaCapture.Proofs.Ata.Pulses
import AtaCapture.Proofs.Waveform.Legible
import AtaCapture.Proofs.Program.Preservation
import AtaCapture.Proofs.Program.Conversion
import AtaCapture.Proofs.Ata.RowSpans
import AtaCapture.Proofs.Pinout.Acceptance
import AtaCapture.Proofs.Cursor.Taking
import AtaCapture.Proofs.Waveform.Cutoff
import AtaCapture.Proofs.Ata.Renaming
import AtaCapture.Proofs.Ata.Legible
import AtaCapture.Proofs.Ata.FoundLines
import AtaCapture.Proofs.Word.Splitting
import AtaCapture.Proofs.Waveform.Values
