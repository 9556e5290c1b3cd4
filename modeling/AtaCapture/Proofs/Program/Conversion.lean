import AtaCapture.Proofs.Ata.LogLines
import AtaCapture.Proofs.Program.Preservation

/-!
A conversion is its stages one after the other. Reading by blocks, twice if a log is wanted,
and writing as it goes come to the same as decoding the whole capture, writing the text of its
samples and the lines of its events. What is wrong with the settings or with the path of the
capture shows before any file is touched.
-/

namespace AtaCapture.Program.Convert

variable {o : Options} {tree : Tree} {arguments : List String} {bytes : ByteArray}
  {read? : List String → Option Options}

/-- The lines of the bus are the same ones in both pinouts. -/
theorem monitor_eq (o : Options) :
    o.monitor = .ok { lines := .recorder, muxLimit := o.muxLimit } := by
  have hlines : Ata.Monitor.ofPinout o.pinout = .ok { lines := .recorder } := by
    rw [Ata.Monitor.ofPinout, Options.pinout]
    split
    · rw [Ata.Lines.ofPinout_grouped]
      rfl
    · rw [Ata.Lines.ofPinout_flat]
      rfl
  rw [Options.monitor, hlines]
  rfl

/-! ### Nothing to convert -/

theorem run_of_fault (hread : read? arguments = some o) {cause : ScaleFault}
    (hfault : o.settings.fault? = some cause) :
    runWith read? arguments tree = { ending := .complaint (scaleComplaint cause), tree } := by
  rw [runWith, hread]
  dsimp only
  rw [hfault]

theorem run_of_missing (hread : read? arguments = some o)
    (hsettings : o.settings.fault? = none) (hmissing : tree.find? o.capture = none) :
    runWith read? arguments tree = stop "the capture cannot be found" tree := by
  rw [runWith, hread]
  dsimp only
  rw [hsettings, hmissing]

/-! ### A capture file -/

/-- Everything that a conversion asks for: accepted settings, a capture file that is not a
waveform, and places where the files can be made. -/
structure Ready (o : Options) (tree : Tree) (bytes : ByteArray) : Prop where
  settings : o.settings.fault? = none
  proper : tree.Proper
  capture : tree.find? o.capture = some (.file bytes)
  extension : Path.extension? o.capture ≠ some "vcd"
  waveform : (tree.create o.waveformPath .empty).isSome
  log : o.annotate → (tree.create o.logPath .empty).isSome

theorem run_of_ready (hread : read? arguments = some o) (h : Ready o tree bytes) :
    runWith read? arguments tree = convert o (bytes.size / 4) tree := by
  rw [runWith, hread]
  dsimp only
  rw [h.settings, h.capture]
  rfl

/-- A tree in which only the waveform and the log may differ still has the capture. -/
theorem Ready.find?_capture (h : Ready o tree bytes) {t : Tree} {places : List String → Prop}
    (hwrites : tree.Writes t places)
    (hplaces : ∀ place, tree.isDirectory place = false → places place →
      tree.place? o.waveformPath = some place ∨ tree.place? o.logPath = some place) :
    t.find? o.capture = some (.file bytes) := by
  obtain ⟨place, hplace, hat⟩ := Tree.find?_eq_some.mp h.capture
  have hfile := Tree.isDirectory_of_file hat
  rw [hwrites.find? hplace, h.capture]
  intro hmem
  rcases hplaces place hfile hmem with hwaveform | hlog
  · exact waveform_ne_capture h.proper hplace hfile h.extension hwaveform
  · exact log_ne_capture h.proper hplace hfile hlog

theorem Ready.find?_waveform (h : Ready o tree bytes) (hread : read? arguments = some o) :
    (runWith read? arguments tree).tree.find? o.waveformPath = some (.file
      (Waveform.text o.pinout o.settings (Replay.decode bytes.data.toList)).toUTF8) := by
  obtain ⟨made, hmade⟩ := Option.isSome_iff_exists.mp h.waveform
  obtain ⟨place, hplace, hfile, -, hwrites⟩ := Tree.writes_of_create hmade
  obtain ⟨source, hsource, hat⟩ := Tree.find?_eq_some.mp h.capture
  have hfind := h.find?_capture hwrites fun other _ hother => .inl (hother ▸ hplace)
  have hlog := log_ne_waveform h.proper hsource (Tree.isDirectory_of_file hat) hplace hfile
  refine Tree.find?_eq_some.mpr ⟨place, ((writes_run hread).place? _).trans hplace, ?_⟩
  rw [run_of_ready hread h]
  exact at?_convert _ h.settings hmade hfind hplace hlog

def logReport (o : Options) (count : Nat) : String :=
  if o.annotate then
    "Writing events to " ++ o.logPath ++ "\n" ++ (s!"Done, total {count} events" ++ "\n")
  else ""

/-- The report of a conversion, and the log file in the end if one is wanted. -/
theorem Ready.run_eq (h : Ready o tree bytes) (hread : read? arguments = some o)
    {m : Ata.Monitor} (hmonitor : o.monitor = .ok m) :
    let samples := Replay.decode bytes.data.toList
    (runWith read? arguments tree).ending = .success ∧
      (runWith read? arguments tree).printed = "Writing to " ++ o.waveformPath ++ "\n" ++
        (progress (bytes.size / 4) (readCapture (.file bytes)).drained ++
          s!"Done, total {samples.length} transitions\n" ++
            logReport o (m.events samples).length) ∧
      (o.annotate → (runWith read? arguments tree).tree.find? o.logPath =
        some (.file (Ata.Log.text (m.events samples)))) := by
  intro samples
  obtain ⟨made, hmade⟩ := Option.isSome_iff_exists.mp h.waveform
  obtain ⟨place, hplace, -, -, hwrites⟩ := Tree.writes_of_create hmade
  have hfind := h.find?_capture hwrites fun other _ hother => .inl (hother ▸ hplace)
  obtain ⟨written, hwritten, hconvert⟩ := convert_eq (bytes.size / 4) h.settings hmade hfind
  rw [run_of_ready hread h, hconvert]
  by_cases hannotate : o.annotate
  · -- The log is made in a tree that has the waveform already.
    have hboth : tree.Writes written fun place => tree.place? o.waveformPath = some place :=
      (hwrites.mono fun other hother => hother ▸ hplace).of_create hwritten
      fun other hother _ => hother
    obtain ⟨logMade, hlogMade⟩ := hboth.create (h.log hannotate) .empty
    have hlogFind : logMade.find? o.capture = some (.file bytes) := by
      have hall : tree.Writes logMade fun place =>
          tree.place? o.waveformPath = some place ∨ tree.place? o.logPath = some place :=
        (hboth.mono fun _ => .inl).of_create hlogMade fun other hother _ => .inr hother
      exact h.find?_capture hall fun _ _ hother => hother
    obtain ⟨logged, hlogged, hreport⟩ := annotate_eq hmonitor hlogMade hlogFind
    rw [logReport, if_pos hannotate, if_pos hannotate, hreport]
    refine ⟨rfl, by simp only [Outcome.after, String.append_empty, samples], fun _ => ?_⟩
    obtain ⟨last, hlast, -, hat, hwrites'⟩ := Tree.writes_of_create hlogged
    exact Tree.find?_eq_some.mpr ⟨last, (hwrites'.place? _).trans hlast, hat⟩
  · rw [logReport, if_neg hannotate, if_neg hannotate]
    exact ⟨rfl, rfl, fun h => absurd h hannotate⟩

/-! ### All conversions -/

/-- A conversion of a capture file that is ready for it succeeds. The waveform is the header
and the lines of the samples that decoding all its bytes gives, and their number is printed.
The log, if one is wanted, is the one that these samples give with the threshold, whichever
pinout is shown, and the number of its lines is printed. With settings that are refused or
without a capture, the conversion fails and no file is different. -/
theorem run_eq_stages (hread : read? arguments = some o) :
    (∀ bytes, Ready o tree bytes →
      let samples := Replay.decode bytes.data.toList
      let m : Ata.Monitor := { lines := .recorder, muxLimit := o.muxLimit }
      (∀ grouped, Options.monitor { o with grouped } = .ok m) ∧
      ∃ (tally : Ata.Tally) (log : String),
        m.run Ata.Log.sink { output := .unlimited } samples =
          (.ok tally, { output := { held := log.toUTF8 }, count := tally.events }) ∧
        log.toList.count '\n' = tally.events ∧
        (runWith read? arguments tree).ending.exitCode = 0 ∧
        (runWith read? arguments tree).tree.find? o.waveformPath =
          some (.file (Waveform.header o.pinout o.settings ++
          String.join (samples.map (Waveform.sampleLine o.pinout o.settings))).toUTF8) ∧
        (o.annotate → (runWith read? arguments tree).tree.find? o.logPath =
          some (.file log.toUTF8)) ∧
        (runWith read? arguments tree).printed = "Writing to " ++ o.waveformPath ++ "\n" ++
          (progress (bytes.size / 4) (readCapture (.file bytes)).drained ++
            s!"Done, total {samples.length} transitions\n" ++ logReport o tally.events)) ∧
    (o.settings.fault? ≠ none ∨ tree.find? o.capture = none →
      (runWith read? arguments tree).ending.exitCode = 1 ∧
      (runWith read? arguments tree).tree = tree) := by
  refine ⟨fun bytes h => ?_, fun hnothing => ?_⟩
  · intro samples m
    have hlogText := Ata.Log.text_eq (m.events samples)
    obtain ⟨hending, hprinted, hlog⟩ := h.run_eq hread (monitor_eq o)
    have htally : (Ata.Automaton.run m samples).2.events = (m.events samples).length := by
      rw [Ata.Monitor.events_eq]
      rfl
    refine ⟨fun grouped => monitor_eq { o with grouped }, (Ata.Automaton.run m samples).2,
      String.join ((m.events samples).map Ata.Event.logLine), ?_, ?_, ?_,
      h.find?_waveform hread, ?_, ?_⟩
    · rw [Ata.Monitor.run_log, hlogText, htally]
    · rw [htally]
      exact Ata.Monitor.count_log (m := m) Ata.Names.oneLine_standard samples
    · rw [hending]
      rfl
    · intro hannotate
      rw [hlog hannotate, ← hlogText]
    · rw [hprinted, htally]
  · cases hfault : o.settings.fault? with
    | some cause =>
        rw [run_of_fault hread hfault]
        exact ⟨rfl, rfl⟩
    | none =>
        have hmissing : tree.find? o.capture = none := hnothing.resolve_left fun h => h hfault
        rw [run_of_missing hread hfault hmissing]
        exact ⟨rfl, rfl⟩

/-- A capture of one device selection with its log, and settings that are refused. -/
theorem run_eq_stages_selection :
    let bytes : ByteArray :=
      ⟨#[0x03, 0x00, 0x00, 0x28, 0x5A, 0x10, 0x00, 0x08, 0x5B, 0x10, 0x00, 0x08]⟩
    let o : Options :=
      { capture := "a.dat", grouped := true, annotate := true, muxLimit := 30 }
    let arguments := ["a.dat", "--grouped", "--annotate", "--ctrl-mux-threshold=30"]
    let refused : Options := { capture := "a.dat", divider := 0 }
    let tree := soleFile "a.dat" bytes
    (Options.read? arguments = some o ∧ Ready o tree bytes ∧
      (run arguments tree).ending.exitCode = 0 ∧
      ∃ log : String, log.toList.count '\n' = 2 ∧
        (run arguments tree).tree.find? "a.ata.txt" = some (.file log.toUTF8)) ∧
    (Options.read? ["a.dat", "--divider=0"] = some refused ∧ refused.settings.fault? ≠ none ∧
      (run ["a.dat", "--divider=0"] tree).tree = tree) := by
  intro bytes o arguments refused tree
  have hread : Options.read? arguments = some o := rfl
  have hrefused : Options.read? ["a.dat", "--divider=0"] = some refused := rfl
  have hready : Ready o tree bytes :=
    ⟨by decide +kernel, proper_soleFile "a.dat" bytes, by decide +kernel, by decide +kernel,
      by decide +kernel, fun _ => by decide +kernel⟩
  have hfault : refused.settings.fault? ≠ none := by
    simp [Waveform.Settings.fault?, Options.settings, refused]
  refine ⟨⟨hread, hready, ?_⟩, hrefused, hfault, ?_⟩
  · obtain ⟨-, tally, log, hrun, hcount, hcode, -, hlog, -⟩ :=
      (run_eq_stages hread).1 bytes hready
    have htwo : tally.events = 2 := by
      rw [← show _ = tally.events from congrArg (fun result => result.2.count) hrun]
      decide +kernel
    have hpath : o.logPath = "a.ata.txt" := by decide +kernel
    rw [← hpath]
    exact ⟨hcode, log, hcount.trans htwo, hlog rfl⟩
  · exact ((run_eq_stages hrefused).2 (.inl hfault)).2

end AtaCapture.Program.Convert
