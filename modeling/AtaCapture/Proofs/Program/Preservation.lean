import AtaCapture.Program.Convert
import AtaCapture.Proofs.Files.Extension
import AtaCapture.Proofs.Program.Intake

/-!
What a conversion leaves alone. It makes its waveform, and its log if one is wanted, where
these paths lead, and changes nothing else, however it ends. A capture with another extension
than a waveform's is neither of these files and stays as it is. A capture with that extension
is its own waveform: it is emptied before it is read, and then holds a waveform without a line.
-/

namespace AtaCapture.Program.Convert

variable {o : Options} {tree t : Tree} {total : Nat} {arguments : List String}
  {bytes : ByteArray} {read? : List String → Option Options}

/-! ### What is written -/

/-- The places that a conversion writes to: those of the waveform and, on demand, of the
log. -/
def Options.Target (o : Options) (tree : Tree) (place : List String) : Prop :=
  tree.isDirectory place = false ∧
    (tree.place? o.waveformPath = some place ∨ o.annotate ∧ tree.place? o.logPath = some place)

theorem writes_annotate {places : List String → Prop} (h : tree.Writes t places)
    (hlog : ∀ place, tree.place? o.logPath = some place → tree.isDirectory place = false →
      places place) :
    tree.Writes (annotate o t).tree places := by
  simp only [annotate, Outcome.after]
  split
  · exact h
  · exact h
  · have hmade := h.of_create ‹_› hlog
    split
    · exact hmade
    · split
      · exact hmade
      · exact hmade
      · exact hmade.of_create_getD _ hlog

theorem writes_convert (o : Options) (total : Nat) (tree : Tree) :
    tree.Writes (convert o total tree).tree (o.Target tree) := by
  have hwaveform (place : List String) (hplace : tree.place? o.waveformPath = some place)
      (hfile : tree.isDirectory place = false) : o.Target tree place := ⟨hfile, .inl hplace⟩
  have hnone := Tree.Writes.refl tree (o.Target tree)
  simp only [convert, Outcome.after]
  split
  · exact hnone
  · rename_i made hmade
    have hmade := hnone.of_create hmade hwaveform
    split
    · exact hmade
    · split
      · exact hmade
      · exact hmade
      · have hwritten := fun bytes => hmade.of_create_getD bytes hwaveform
        by_cases hannotate : o.annotate
        · rw [if_pos hannotate]
          exact writes_annotate (hwritten _) fun place hplace hfile =>
            ⟨hfile, .inr ⟨hannotate, hplace⟩⟩
        · rw [if_neg hannotate]
          exact hwritten _

theorem writes_run (hread : read? arguments = some o) :
    tree.Writes (runWith read? arguments tree).tree (o.Target tree) := by
  rw [runWith, hread]
  dsimp only
  split
  · exact .refl ..
  · split
    · exact .refl ..
    · exact writes_convert ..

/-! ### Three files -/

section

variable {place other : List String} (hproper : tree.Proper)
  (hplace : tree.place? o.capture = some place)
  (hfile : tree.isDirectory place = false)

include hproper hplace hfile

theorem waveform_ne_capture (hext : Path.extension? o.capture ≠ some "vcd") :
    tree.place? o.waveformPath ≠ some place := fun hwaveform =>
  hproper.ne_of_extension hplace hfile (by decide) hext hwaveform hfile rfl

/-- The extension of the log has a dot in it, and no name has such an extension. -/
theorem log_ne_capture : tree.place? o.logPath ≠ some place := fun hlog =>
  hproper.ne_of_extension hplace hfile (by decide)
    (Path.extension?_ne_of_dot (by decide)) hlog hfile rfl

theorem log_ne_waveform (hwaveform : tree.place? o.waveformPath = some other)
    (hother : tree.isDirectory other = false) :
    tree.place? o.logPath ≠ some other := fun hlog =>
  hproper.ne_of_extensions hplace hfile (by decide) (by decide)
    (by decide) hwaveform hother hlog hother rfl

end

/-! ### A capture that is not its own waveform -/

theorem not_target (hproper : tree.Proper) {place : List String}
    (hplace : tree.place? o.capture = some place)
    (hext : Path.extension? o.capture ≠ some "vcd") : ¬ o.Target tree place := by
  rintro ⟨hfile, hwaveform | ⟨-, hlog⟩⟩
  · exact waveform_ne_capture hproper hplace hfile hext hwaveform
  · exact log_ne_capture hproper hplace hfile hlog

theorem find?_run (hread : read? arguments = some o) (hproper : tree.Proper)
    (hext : Path.extension? o.capture ≠ some "vcd") :
    (runWith read? arguments tree).tree.find? o.capture = tree.find? o.capture := by
  have hwrites : tree.Writes (runWith read? arguments tree).tree (o.Target tree) :=
    writes_run hread
  cases hplace : tree.place? o.capture with
  | none => rw [Tree.find?, Tree.find?, hwrites.place?, hplace]; rfl
  | some place => exact hwrites.find? hplace (not_target hproper hplace hext)

/-! ### The waveform afterwards -/

/-- The waveform holds the samples that were read, unless the log is made over it. -/
theorem at?_convert {made : Tree} (total : Nat) (hsettings : o.settings.fault? = none)
    (hmade : tree.create o.waveformPath .empty = some made)
    (hfind : made.find? o.capture = some (.file bytes)) {place : List String}
    (hplace : tree.place? o.waveformPath = some place)
    (hlog : tree.place? o.logPath ≠ some place) :
    (convert o total tree).tree.at? place = some (.file
      (Waveform.text o.pinout o.settings (Replay.decode bytes.data.toList)).toUTF8) := by
  obtain ⟨_, -, -, -, hwrites⟩ := Tree.writes_of_create hmade
  obtain ⟨written, hwritten, hconvert⟩ := convert_eq total hsettings hmade hfind
  obtain ⟨last, hlast, -, hat, hwrites'⟩ := Tree.writes_of_create hwritten
  obtain rfl : place = last :=
    Option.some.inj (hplace.symm.trans ((hwrites.place? _).symm.trans hlast))
  rw [hconvert]
  show (if o.annotate then annotate o written else
      { ending := .success, tree := written }).tree.at? place = _
  split
  · have hannotate := writes_annotate (o := o)
      (.refl written fun place => tree.place? o.logPath = some place) fun other hother _ => by
        rwa [hwrites'.place?, hwrites.place?] at hother
    rw [hannotate.at? place hlog, hat]
  · exact hat

/-! ### A capture that is its own waveform -/

/-- The capture is empty when it is read, and what is written then stays. -/
theorem find?_run_of_own_waveform (hread : read? arguments = some o) (hproper : tree.Proper)
    (hfile : tree.find? o.capture = some (.file bytes))
    (hext : Path.extension? o.capture = some "vcd") (hsettings : o.settings.fault? = none)
    (hmake : (tree.create o.waveformPath .empty).isSome) :
    (runWith read? arguments tree).tree.find? o.capture =
      some (.file (Waveform.header o.pinout o.settings).toUTF8) := by
  obtain ⟨place, hplace, hat⟩ := Tree.find?_eq_some.mp hfile
  have hnot := Tree.isDirectory_of_file hat
  obtain ⟨made, hmade⟩ := Option.isSome_iff_exists.mp hmake
  obtain ⟨other, hother, hotherFile, hempty, hwrites⟩ := Tree.writes_of_create hmade
  have hsame : other = place := by
    obtain ⟨folder, stem, ⟨hnone, -⟩ | ⟨e, he, -, rfl⟩, hwith⟩ := hproper.beside hplace hnot
    · rw [hext] at hnone
      cases hnone
    · obtain rfl := Option.some.inj (hext.symm.trans he)
      exact hwith "vcd" (by decide) other hother hotherFile
  subst hsame
  have hfind : made.find? o.capture = some (.file .empty) :=
    Tree.find?_eq_some.mpr ⟨other, (hwrites.place? _).trans hplace, hempty⟩
  have hlog := log_ne_capture hproper hplace hnot
  have hrun : runWith read? arguments tree = convert o (wordCount (.file bytes)) tree := by
    rw [runWith, hread]
    dsimp only
    rw [hsettings, hfile]
  refine Tree.find?_eq_some.mpr ⟨other, ((writes_run hread).place? _).trans hplace, ?_⟩
  rw [hrun, at?_convert _ hsettings hmade hfind hother hlog, ← Waveform.text_nil]
  rfl

/-! ### All captures -/

/-- A conversion changes nothing but its waveform and, on demand, its log, whatever comes of
it. A capture file without the extension of a waveform is neither, and holds the same bytes as
before. One that has the extension is lost if the settings are accepted and the waveform can be
made: it becomes a header. -/
theorem run_preserves_capture (hread : read? arguments = some o) (hproper : tree.Proper) :
    (∀ place, (runWith read? arguments tree).tree.at? place ≠ tree.at? place →
      tree.place? (Path.withExtension o.capture "vcd") = some place ∨
        o.annotate ∧ tree.place? (Path.withExtension o.capture "ata.txt") = some place) ∧
    ∀ bytes, tree.find? o.capture = some (.file bytes) →
      (Path.extension? o.capture ≠ some "vcd" →
        (runWith read? arguments tree).tree.find? o.capture = some (.file bytes)) ∧
      (Path.extension? o.capture = some "vcd" → o.settings.fault? = none →
        (tree.create o.waveformPath .empty).isSome →
        (runWith read? arguments tree).tree.find? o.capture =
          some (.file (Waveform.header o.pinout o.settings).toUTF8)) := by
  refine ⟨fun place hchanged => ?_,
    fun bytes hfile => ⟨fun hext => ?_, fun hext hsettings hmake => ?_⟩⟩
  · by_contra hnot
    exact hchanged ((writes_run hread).at? place fun htarget => hnot htarget.2)
  · rw [find?_run hread hproper hext, hfile]
  · exact find?_run_of_own_waveform hread hproper hfile hext hsettings hmake

def soleFile (name : String) (bytes : ByteArray) : Tree :=
  { here := [], entries := [([name], .file bytes)] }

theorem proper_soleFile (name : String) (bytes : ByteArray) :
    (soleFile name bytes).Proper := by
  intro place last habove
  have hplace : place = [] := by
    rw [Tree.isAbove, Bool.or_eq_true, List.isPrefixOf_iff_prefix] at habove
    rcases habove with hhere | hentry
    · exact absurd (List.prefix_nil.mp hhere) (by simp)
    · have hlength : (place ++ [last]).length ≤ [name].length := by
        refine (List.isPrefixOf_iff_prefix.mp ?_).length_le
        simpa [soleFile] using hentry
      rw [List.length_append, List.length_singleton, List.length_singleton] at hlength
      exact List.length_eq_zero_iff.mp (by omega)
  subst hplace
  simp [Tree.isDirectory, Tree.at?, Tree.isAbove, soleFile]

/-- A capture beside its waveform and its log, and one that is its own waveform. -/
theorem run_preserves_capture_soleFile :
    let bytes : ByteArray := ⟨#[0, 0, 0, 0]⟩
    let o : Options := { capture := "a.dat", annotate := true }
    let own : Options := { capture := "a.vcd" }
    (Options.read? ["a.dat", "--annotate"] = some o ∧ (soleFile "a.dat" bytes).Proper ∧
      (run ["a.dat", "--annotate"] (soleFile "a.dat" bytes)).tree.find? "a.dat" =
        some (.file bytes)) ∧
    (Options.read? ["a.vcd"] = some own ∧ (soleFile "a.vcd" bytes).Proper ∧
      (run ["a.vcd"] (soleFile "a.vcd" bytes)).tree.find? "a.vcd" =
        some (.file (Waveform.header .flat own.settings).toUTF8)) := by
  intro bytes o own
  have hread : Options.read? ["a.dat", "--annotate"] = some o := rfl
  have hown : Options.read? ["a.vcd"] = some own := rfl
  have hproper := proper_soleFile "a.dat" bytes
  have hownProper := proper_soleFile "a.vcd" bytes
  refine ⟨⟨hread, hproper, ?_⟩, hown, hownProper, ?_⟩
  · obtain ⟨-, hkept⟩ := run_preserves_capture hread hproper
    exact (hkept bytes (by decide +kernel)).1 (by decide +kernel)
  · obtain ⟨-, hlost⟩ := run_preserves_capture hown hownProper
    exact (hlost bytes (by decide +kernel)).2 (by decide +kernel) (by decide +kernel)
      (by decide +kernel)

/-- The capture of four bytes is overwritten, and the conversion reports success. -/
theorem run_overwrites_capture :
    Options.read? ["a.vcd"] = some { capture := "a.vcd" } ∧
      (soleFile "a.vcd" ⟨#[0, 0, 0, 0]⟩).find? "a.vcd" = some (.file ⟨#[0, 0, 0, 0]⟩) ∧
      (run ["a.vcd"] (soleFile "a.vcd" ⟨#[0, 0, 0, 0]⟩)).ending.exitCode = 0 ∧
      (run ["a.vcd"] (soleFile "a.vcd" ⟨#[0, 0, 0, 0]⟩)).tree.find? "a.vcd" ≠
        some (.file ⟨#[0, 0, 0, 0]⟩) := by
  refine ⟨rfl, ?_⟩
  decide +kernel

end AtaCapture.Program.Convert
