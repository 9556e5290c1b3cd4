import AtaCapture.Proofs.Output
import AtaCapture.Waveform.Dump

/-!
Writing a waveform in any way. The header, single samples and whole lists of them can be asked
for in any order; as long as the output has room, what it holds depends on the samples alone,
and the end supplies a header that nobody asked for.
-/

namespace AtaCapture.Waveform

def text (p : Pinout) (s : Settings) (samples : List Sample) : String :=
  header p s ++ String.join (samples.map (sampleLine p s))

inductive Call where
  | header
  | sample (s : Sample)
  | all (samples : List Sample)

namespace Call

def samples : Call → List Sample
  | header => []
  | sample s => [s]
  | all samples => samples

def allSamples (calls : List Call) : List Sample := calls.flatMap samples

end Call

namespace Dump

def call (d : Dump) : Call → Option Fault × Dump
  | .header => d.putHeader
  | .sample s => d.putSample s
  | .all samples =>
    match d.putAll samples with
    | (.error fault, d) => (some fault, d)
    | (.ok _, d) => (none, d)

def calls (d : Dump) : List Call → Option Fault × Dump
  | [] => (none, d)
  | c :: rest =>
    match d.call c with
    | (some fault, d) => (some fault, d)
    | (none, d) => d.calls rest

end Dump

def write (output : Output) (p : Pinout) (s : Settings) (calls : List Call) :
    Except Fault (Nat × Output) := do
  let d ← Dump.start output p s
  match d.calls calls with
  | (some fault, _) => throw fault
  | (none, d) =>
    match d.finish with
    | (some fault, _) => throw fault
    | (none, output) => return (d.count, output)

variable {p : Pinout} {s : Settings}

theorem text_nil : text p s [] = header p s := String.append_empty

theorem text_append (p : Pinout) (s : Settings) (samples others : List Sample) :
    text p s (samples ++ others) =
      text p s samples ++ String.join (others.map (sampleLine p s)) := by
  rw [text, text, List.map_append, String.join_append, String.append_assoc]

theorem text_concat (p : Pinout) (s : Settings) (samples : List Sample) (sample : Sample) :
    text p s (samples ++ [sample]) = text p s samples ++ sampleLine p s sample := by
  rw [text_append, List.map_singleton, String.join_cons, String.join_nil, String.append_empty]

namespace Dump

variable {d e : Dump} {samples others : List Sample}

def after (d : Dump) (samples : List Sample) : Dump :=
  { d with
    output :=
      { d.output with held := d.output.held ++ (text d.pinout d.settings samples).toUTF8 }
    headed := true
    count := samples.length }

/-- Some samples have been written since nothing was, perhaps not even the header. -/
inductive Shows (d : Dump) : List Sample → Dump → Prop
  | fresh (hhead : d.headed = false) (hcount : d.count = 0) : Shows d [] d
  | after (samples : List Sample) : Shows d samples (d.after samples)

theorem Shows.putHeader (h : d.Shows samples e)
    (hroom : d.output.HasRoom (text d.pinout d.settings samples)) :
    e.putHeader = (none, d.after samples) := by
  cases h with
  | fresh hhead hcount =>
      rw [text_nil] at hroom
      simp only [Dump.putHeader, hhead, Bool.false_eq_true, if_false, hroom.write, Dump.after,
        text_nil, List.length_nil, hcount]
  | after samples => rfl

theorem Shows.putSample (h : d.Shows samples e) {sample : Sample}
    (hroom : d.output.HasRoom (text d.pinout d.settings (samples ++ [sample]))) :
    e.putSample sample = (none, d.after (samples ++ [sample])) := by
  rw [text_concat] at hroom
  obtain ⟨hbefore, hline⟩ := hroom.append
  rw [Dump.putSample, h.putHeader hbefore]
  have hwrite : (d.after samples).output.write (sampleLine d.pinout d.settings sample) = _ :=
    hline.write
  dsimp only
  rw [show sampleLine (d.after samples).pinout (d.after samples).settings sample
    = sampleLine d.pinout d.settings sample from rfl, hwrite]
  simp only [Dump.after, text_concat, String.toUTF8_eq_toByteArray, String.toByteArray_append,
    ByteArray.append_assoc, List.length_append, List.length_singleton]

/-- There is room for the first of some samples where there is room for all. -/
theorem hasRoom_text {o : Output} (h : o.HasRoom (text p s (samples ++ others))) :
    o.HasRoom (text p s samples) := by
  rw [text_append] at h
  exact h.append.1

theorem Shows.putSamples (h : d.Shows samples e) (others : List Sample)
    (hroom : d.output.HasRoom (text d.pinout d.settings (samples ++ others))) :
    ∃ e', e.putSamples others = (none, e') ∧ d.Shows (samples ++ others) e' := by
  induction others generalizing samples e with
  | nil => exact ⟨e, rfl, by rwa [List.append_nil]⟩
  | cons sample others ih =>
      rw [List.append_cons] at hroom
      have hfirst := h.putSample (hasRoom_text hroom)
      obtain ⟨e', hrest, hshows⟩ := ih (.after (samples ++ [sample])) hroom
      refine ⟨e', ?_, ?_⟩
      · rw [Dump.putSamples, hfirst]
        exact hrest
      · rwa [List.append_cons]

theorem Shows.count (h : d.Shows samples e) : e.count = samples.length := by
  cases h with
  | fresh hhead hcount => exact hcount
  | after samples => rfl

theorem Shows.putAll (h : d.Shows samples e) (others : List Sample)
    (hroom : d.output.HasRoom (text d.pinout d.settings (samples ++ others))) :
    ∃ e', e.putAll others = (.ok others.length, e') ∧ d.Shows (samples ++ others) e' := by
  obtain ⟨e', hput, hshows⟩ := h.putSamples others hroom
  refine ⟨e', ?_, hshows⟩
  rw [Dump.putAll, hput]
  dsimp only
  rw [hshows.count, h.count, List.length_append, Nat.add_sub_cancel_left]

theorem Shows.call (h : d.Shows samples e) {c : Call}
    (hroom : d.output.HasRoom (text d.pinout d.settings (samples ++ c.samples))) :
    ∃ e', e.call c = (none, e') ∧ d.Shows (samples ++ c.samples) e' := by
  cases c with
  | header =>
      rw [Call.samples, List.append_nil] at hroom ⊢
      exact ⟨_, h.putHeader hroom, .after samples⟩
  | sample s => exact ⟨_, h.putSample hroom, .after (samples ++ [s])⟩
  | all others =>
      obtain ⟨e', hput, hshows⟩ := h.putAll others hroom
      refine ⟨e', ?_, hshows⟩
      rw [Dump.call, hput]

theorem Shows.calls (h : d.Shows samples e) (cs : List Call)
    (hroom : d.output.HasRoom (text d.pinout d.settings (samples ++ Call.allSamples cs))) :
    ∃ e', e.calls cs = (none, e') ∧ d.Shows (samples ++ Call.allSamples cs) e' := by
  induction cs generalizing samples e with
  | nil => exact ⟨e, rfl, by rwa [Call.allSamples, List.flatMap_nil, List.append_nil]⟩
  | cons c cs ih =>
      rw [Call.allSamples, List.flatMap_cons, ← List.append_assoc] at hroom ⊢
      obtain ⟨next, hcall, hnext⟩ := h.call (hasRoom_text hroom)
      obtain ⟨e', hrest, hshows⟩ := ih hnext hroom
      refine ⟨e', ?_, hshows⟩
      rw [Dump.calls, hcall]
      exact hrest

end Dump

theorem Settings.check_of_fault (h : s.fault? = none) : s.check = .ok () := by
  rw [Settings.check, h]

end AtaCapture.Waveform
