import AtaCapture.Program.Conversion
import AtaCapture.Proofs.Ata.Deliveries
import AtaCapture.Proofs.Feed
import AtaCapture.Proofs.Files.Frame
import AtaCapture.Proofs.Waveform.Calls

/-!
What a conversion reads and writes. Taking every sample of a feed gives those of all the bytes
that its reader hands out, whatever the blocks, and the failure that ended them; so a file is
read as a whole, and its waveform is the text of the samples.
-/

namespace AtaCapture

namespace Feed

variable {script : Reader} {l : Layout} {size m n : Nat} {f : Feed}
  {out : Array (Sample × Nat)}

theorem map_give (f : Feed) (out : Array (Sample × Nat)) :
    (f.give out).1.toList.map Prod.fst = out.toList.map Prod.fst ++ f.pending := by
  rw [give]
  dsimp only
  induction f.pending generalizing out with
  | nil => simp
  | cons s pending ih => rw [List.foldl_cons, ih]; simp

/-- More reads hold what fewer do, and perhaps more. -/
theorem prefix_decoded_of_le {k : Nat} (h : k ≤ m) :
    (decoded script l size k).1 <+: (decoded script l size m).1 := by
  have hsplit : ((script.reads size).take m).flatten =
      ((script.reads size).take k).flatten ++
        (((script.reads size).take m).drop k).flatten := by
    have htake : ((script.reads size).take m).take k = (script.reads size).take k := by
      rw [List.take_take, Nat.min_eq_left h]
    rw [← List.flatten_append, ← htake, List.take_append_drop]
  rw [decoded, decoded, hsplit, Replay.chunk_append]
  exact List.prefix_append ..

/-- A feed that is not over has given all samples of the bytes it has read. -/
theorem running_give (h : Running script l size m n f) (out : Array (Sample × Nat)) :
    Running script l size m (decoded script l size m).1.length (f.give out).2 :=
  { h with
    pending := (List.drop_length ..).symm
    shown := Nat.le_refl _
    given := by
      have hshown := h.shown
      show f.given + f.pending.length = _
      rw [h.given, h.pending, List.length_drop]
      omega }

/-- What was taken is the beginning of all samples. -/
theorem drainOnto_of_running (hpos : 0 < size) (h : Running script l size m n f)
    (hout : out.toList.map Prod.fst = (Replay.samplesOfBytes l script.delivered).take n) :
    (f.drainOnto out).1.toList.map Prod.fst = Replay.samplesOfBytes l script.delivered ∧
      (f.drainOnto out).2.failure = script.ending.1 := by
  have hfinal : ∀ {g : Feed} {n : Nat} {taken : Array (Sample × Nat)}, Over script l n g →
      taken.toList.map Prod.fst = (Replay.samplesOfBytes l script.delivered).take n →
      (g.give taken).1.toList.map Prod.fst = Replay.samplesOfBytes l script.delivered ∧
        (g.give taken).2.failure = script.ending.1 := by
    intro g n taken hover htaken
    rw [map_give, htaken, hover.pending, List.take_append_drop]
    exact ⟨rfl, hover.failure⟩
  fun_induction drainOnto f out generalizing m n with
  | case1 f out hended ih =>
      have hgiven := running_give h out
      obtain ⟨rest, hprefix⟩ := prefix_samples script l size m
      have htaken : (f.give out).1.toList.map Prod.fst =
          (Replay.samplesOfBytes l script.delivered).take
          (decoded script l size m).1.length := by
        have hn := h.shown
        rw [map_give, hout, h.pending, ← hprefix, List.take_append_of_le_length hn,
          List.take_append_drop, List.take_left']
        rfl
      have heager : Eager script l size m ((decoded script l size m).1.length + 1) :=
        fun k hk =>
        Nat.lt_succ_of_le (prefix_decoded_of_le (Nat.le_of_lt hk)).length_le
      rcases running_read hpos hgiven rfl heager with ⟨m', hread, -⟩ | ⟨hover, -⟩
      · exact ih hread htaken
      · rw [drainOnto, dif_neg (by simp [hover.ended])]
        exact hfinal hover htaken
  | case2 f out hended => exact absurd h.ended hended

theorem drain_start (script : Reader) (l : Layout) (size : Nat) (hpos : 0 < size) :
    (Feed.start script l size).drain.1.toList.map Prod.fst =
      Replay.samplesOfBytes l script.delivered ∧
      (Feed.start script l size).drain.2.failure = script.ending.1 :=
  drainOnto_of_running hpos (running_start hpos) rfl

end Feed

namespace Program.Convert

theorem readCapture_file (bytes : ByteArray) :
    (readCapture (.file bytes)).samples = Replay.decode bytes.data.toList ∧
      (readCapture (.file bytes)).failure = none := by
  have hdelivered : (readerOf (.file bytes)).delivered = bytes.data.toList ∧
      (readerOf (.file bytes)).ending.1 = none := by
    rw [readerOf]
    cases bytes.data.toList with
    | nil => exact ⟨rfl, rfl⟩
    | cons b rest => exact ⟨List.append_nil _, rfl⟩
  have hdrain := Feed.drain_start (readerOf (.file bytes)) .standard Feed.fileBlock (by decide)
  rw [hdelivered.1, hdelivered.2] at hdrain
  exact hdrain

theorem waveform_eq {o : Options} (hsettings : o.settings.fault? = none)
    (samples : List Sample) :
    waveform o samples = .ok (Waveform.text o.pinout o.settings samples).toUTF8 := by
  let d : Waveform.Dump := { output := .unlimited, pinout := o.pinout, settings := o.settings }
  have hroom (text : String) : d.output.HasRoom text := Output.hasRoom_of_unlimited rfl text
  have hfresh : d.Shows [] d := .fresh rfl rfl
  obtain ⟨e, hput, hshows⟩ := hfresh.putAll samples (hroom _)
  have hstart : Waveform.Dump.start .unlimited o.pinout o.settings = .ok d := by
    rw [Waveform.Dump.start, Waveform.Settings.check_of_fault hsettings]
    rfl
  have hfinish : e.finish = (none, (d.after samples).output) := by
    rw [Waveform.Dump.finish, hshows.putHeader (hroom _)]
    rfl
  simp only [waveform, hstart, bind, Except.bind, hput, hfinish]
  exact congrArg Except.ok (ByteArray.empty_append ..)

/-! ### The stages -/

section

variable {o : Options} {tree made : Tree} {bytes : ByteArray}

/-- A conversion that can make its waveform and finds the capture writes the samples it finds
there. -/
theorem convert_eq (total : Nat) (hsettings : o.settings.fault? = none)
    (hmade : tree.create o.waveformPath .empty = some made)
    (hfind : made.find? o.capture = some (.file bytes)) :
    ∃ written, made.create o.waveformPath
        (Waveform.text o.pinout o.settings (Replay.decode bytes.data.toList)).toUTF8 =
          some written ∧
      let rest :=
        if o.annotate then annotate o written else { ending := .success, tree := written }
      convert o total tree = .after ("Writing to " ++ o.waveformPath) { rest with
        printed := progress total (readCapture (.file bytes)).drained ++
          s!"Done, total {(Replay.decode bytes.data.toList).length} transitions\n" ++
            rest.printed } := by
  obtain ⟨hsamples, hfailure⟩ := readCapture_file bytes
  obtain ⟨_, -, -, -, hwrites⟩ := Tree.writes_of_create hmade
  obtain ⟨written, hwritten⟩ := hwrites.create (Option.isSome_iff_exists.mpr ⟨made, hmade⟩)
    (Waveform.text o.pinout o.settings (Replay.decode bytes.data.toList)).toUTF8
  have hsize : (readCapture (.file bytes)).drained.size =
      (Replay.decode bytes.data.toList).length := by
    rw [← hsamples, Intake.samples, List.length_map, Array.length_toList]
  refine ⟨written, hwritten, ?_⟩
  rw [convert, hmade]
  dsimp only
  rw [hfind]
  dsimp only
  rw [hsamples, waveform_eq hsettings, hfailure]
  dsimp only
  rw [hwritten, hsize]
  rfl

theorem annotate_eq {m : Ata.Monitor} (hmonitor : o.monitor = .ok m)
    (hmade : tree.create o.logPath .empty = some made)
    (hfind : made.find? o.capture = some (.file bytes)) :
    ∃ logged, made.create o.logPath
        (Ata.Log.text (m.events (Replay.decode bytes.data.toList))) = some logged ∧
      annotate o tree = .after ("Writing events to " ++ o.logPath)
        (.after s!"Done, total {(m.events (Replay.decode bytes.data.toList)).length} events"
          { ending := .success, tree := logged }) := by
  obtain ⟨hsamples, hfailure⟩ := readCapture_file bytes
  obtain ⟨_, -, -, -, hwrites⟩ := Tree.writes_of_create hmade
  obtain ⟨logged, hlogged⟩ := hwrites.create (Option.isSome_iff_exists.mpr ⟨made, hmade⟩)
    (Ata.Log.text (m.events (Replay.decode bytes.data.toList)))
  have hlog : log m (Replay.decode bytes.data.toList) = .ok
      (Ata.Log.text (m.events (Replay.decode bytes.data.toList)),
        (m.events (Replay.decode bytes.data.toList)).length) := by
    rw [log, Ata.Monitor.run_log, Ata.Monitor.events_eq]
    rfl
  refine ⟨logged, hlogged, ?_⟩
  rw [annotate, hmonitor, hmade]
  dsimp only
  rw [hfind]
  dsimp only
  rw [hsamples, hlog, hfailure]
  dsimp only
  rw [hlogged]
  rfl

end

end Program.Convert

end AtaCapture
