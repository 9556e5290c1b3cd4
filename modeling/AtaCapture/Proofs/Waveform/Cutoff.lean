import AtaCapture.Proofs.Waveform.Calls
import Mathlib

/-!
A waveform on an output that runs full. The same calls on an output that never does leave an
ideal waveform, and as long as that fits, both go the same way. The call whose ideal waveform
passes the limit fails, wherever in the header or in a line that is; what is held then is the
beginning of the ideal waveform, and the lines that are whole in it have been counted.
-/

namespace AtaCapture.Waveform

variable {p : Pinout} {s : Settings} {samples others : List Sample} {size : Nat}

/-! ### Whole lines -/

/-- The number of samples whose whole line lies within the first `size` bytes of their
waveform. -/
def linesWithin (p : Pinout) (s : Settings) (size : Nat) (samples : List Sample) : Nat :=
  (List.range samples.length).countP fun i =>
    (text p s (samples.take (i + 1))).toUTF8.size ≤ size

theorem linesWithin_concat (p : Pinout) (s : Settings) (size : Nat) (samples : List Sample)
    (sample : Sample) :
    linesWithin p s size (samples ++ [sample]) = linesWithin p s size samples +
      if (text p s (samples ++ [sample])).toUTF8.size ≤ size then 1 else 0 := by
  have hbefore : ∀ i ∈ List.range samples.length,
      (samples ++ [sample]).take (i + 1) = samples.take (i + 1) := fun i hi =>
    List.take_append_of_le_length (List.mem_range.mp hi)
  have hall : (samples ++ [sample]).take (samples.length + 1) = samples ++ [sample] :=
    List.take_of_length_le (by rw [List.length_append, List.length_singleton])
  simp only [linesWithin, List.length_append, List.length_singleton, List.range_succ,
    List.countP_append, List.countP_singleton, hall, decide_eq_true_eq]
  rw [List.countP_congr fun i hi => by rw [hbefore i hi]]

theorem toUTF8_text_append (p : Pinout) (s : Settings) (samples others : List Sample) :
    (text p s (samples ++ others)).toUTF8 =
      (text p s samples).toUTF8 ++ (String.join (others.map (sampleLine p s))).toUTF8 := by
  rw [text_append]
  simp only [String.toUTF8_eq_toByteArray, String.toByteArray_append]

theorem size_text_le (p : Pinout) (s : Settings) (samples others : List Sample) :
    (text p s samples).toUTF8.size ≤ (text p s (samples ++ others)).toUTF8.size := by
  rw [toUTF8_text_append, ByteArray.size_append]
  exact Nat.le_add_right ..

theorem linesWithin_of_fits (h : (text p s samples).toUTF8.size ≤ size) :
    linesWithin p s size samples = samples.length := by
  induction samples using List.reverseRecOn with
  | nil => rfl
  | append_singleton samples sample ih =>
      rw [linesWithin_concat, if_pos h, ih (Nat.le_trans (size_text_le ..) h),
        List.length_append, List.length_singleton]

/-- Behind a line that is cut off no line is whole. -/
theorem linesWithin_append (h : size < (text p s samples).toUTF8.size) (others : List Sample) :
    linesWithin p s size (samples ++ others) = linesWithin p s size samples := by
  induction others using List.reverseRecOn with
  | nil => rw [List.append_nil]
  | append_singleton others sample ih =>
      have hlong := Nat.lt_of_lt_of_le h (size_text_le p s samples (others ++ [sample]))
      rw [← List.append_assoc] at hlong ⊢
      rw [linesWithin_concat, if_neg (Nat.not_le.mpr hlong), ih, Nat.add_zero]

namespace Dump

variable {d e : Dump}

def within (size : Nat) (d : Dump) : Dump :=
  { d with output := { d.output with limit := some size } }

/-- How a call goes on an output of `size` bytes that leaves `ideal`, the waveform of
`samples`, where there is room. -/
inductive Cut (size : Nat) (samples : List Sample) (ideal : Dump) : Option Fault × Dump → Prop
  | fits (h : ideal.output.held.size ≤ size) : Cut size samples ideal (none, ideal.within size)
  | full {f : Dump} (h : size < ideal.output.held.size)
      (houtput : f.output = { held := ideal.output.held.extract 0 size })
      (hcount : f.count = linesWithin ideal.pinout ideal.settings size samples) :
      Cut size samples ideal (some (.device Output.full), f)

theorem Shows.eq_or_eq_after (h : d.Shows samples e) :
    samples = [] ∧ e = d ∨ e = d.after samples := by
  cases h with
  | fresh => exact .inl ⟨rfl, rfl⟩
  | after samples => exact .inr rfl

section

variable (hd : d.output = .unlimited)

include hd

theorem output_after (samples : List Sample) :
    (d.after samples).output = { held := (text d.pinout d.settings samples).toUTF8 } := by
  simp only [after, hd, Output.unlimited, ByteArray.empty_append]

theorem held_after (samples : List Sample) :
    (d.after samples).output.held = (text d.pinout d.settings samples).toUTF8 :=
  congrArg Output.held (output_after hd samples)

/-- What has failed is not mended by what was to follow. -/
theorem Cut.append {f : Dump} {fault : Fault}
    (h : Cut size samples (d.after samples) (some fault, f)) (others : List Sample) :
    Cut size (samples ++ others) (d.after (samples ++ others)) (some fault, f) := by
  cases h with
  | full hlong houtput hcount =>
      rw [held_after hd] at hlong houtput
      refine .full ?_ ?_ ?_
      · rw [held_after hd]
        exact Nat.lt_of_lt_of_le hlong (size_text_le ..)
      · rw [houtput, held_after hd, toUTF8_text_append, ByteArray.extract_append, Nat.zero_sub,
          Nat.sub_eq_zero_of_le (Nat.le_of_lt hlong), ByteArray.extract_same,
          ByteArray.append_empty]
      · rw [hcount]
        exact (linesWithin_append hlong others).symm

/-- The header is written before anything else, or it has been written. -/
theorem cut_putHeader (h : d.Shows samples e) (hheld : e.output.held.size ≤ size) :
    Cut size samples (d.after samples) (e.within size).putHeader := by
  cases h with
  | after samples => exact .fits hheld
  | fresh hhead hcount =>
      have hideal := held_after hd []
      have hempty : ByteArray.empty.size ≤ size := Nat.zero_le size
      have hwrite := Output.write_limited hempty (text d.pinout d.settings [])
      rw [ByteArray.empty_append, text_nil] at hwrite
      rw [text_nil] at hideal
      by_cases hfits : (header d.pinout d.settings).toUTF8.size ≤ size
      · rw [if_pos hfits] at hwrite
        have hput : (d.within size).putHeader = (none, (d.after []).within size) := by
          simp only [putHeader, within, after, hhead, Bool.false_eq_true, if_false, hd,
            Output.unlimited, hwrite, text_nil, ByteArray.empty_append, hcount,
            List.length_nil]
        rw [hput]
        exact .fits (hideal ▸ hfits)
      · rw [if_neg hfits] at hwrite
        have hput : (d.within size).putHeader = (some (.device Output.full),
            { d with
              output := { held := (header d.pinout d.settings).toUTF8.extract 0 size } }) := by
          simp only [putHeader, within, hhead, Bool.false_eq_true, if_false, hd,
            Output.unlimited, hwrite]
        rw [hput]
        refine .full ?_ ?_ hcount
        · rw [hideal]
          exact Nat.not_le.mp hfits
        · rw [hideal]

theorem cut_putSample (h : d.Shows samples e) (hheld : e.output.held.size ≤ size)
    (sample : Sample) :
    Cut size (samples ++ [sample]) (d.after (samples ++ [sample]))
      ((e.within size).putSample sample) := by
  have hheader := cut_putHeader hd h hheld
  generalize hresult : (e.within size).putHeader = result at hheader
  cases hheader with
  | full hlong houtput hcount =>
      rw [putSample, hresult]
      exact (Cut.full hlong houtput hcount).append hd [sample]
  | fits hfits =>
      have hwrite := Output.write_limited hfits (sampleLine d.pinout d.settings sample)
      have hline :
          (d.after samples).output.held ++ (sampleLine d.pinout d.settings sample).toUTF8 =
          (d.after (samples ++ [sample])).output.held := by
        rw [held_after hd, held_after hd, text_concat]
        simp only [String.toUTF8_eq_toByteArray, String.toByteArray_append]
      rw [hline] at hwrite
      by_cases hlong : (d.after (samples ++ [sample])).output.held.size ≤ size
      · rw [if_pos hlong] at hwrite
        have hput : (e.within size).putSample sample =
            (none, (d.after (samples ++ [sample])).within size) := by
          rw [putSample, hresult]
          simp only [within, after, List.length_append, List.length_singleton] at hwrite ⊢
          rw [hwrite]
        rw [hput]
        exact .fits hlong
      · rw [if_neg hlong] at hwrite
        have hput : (e.within size).putSample sample = (some (.device Output.full),
            { d.after samples with
              output :=
                { held := (d.after (samples ++ [sample])).output.held.extract 0 size } }) := by
          rw [putSample, hresult]
          simp only [within, after] at hwrite ⊢
          rw [hwrite]
        rw [hput]
        refine .full (Nat.not_le.mp hlong) rfl ?_
        rw [held_after hd] at hlong hfits
        show samples.length = linesWithin d.pinout d.settings size (samples ++ [sample])
        rw [linesWithin_concat, if_neg hlong, linesWithin_of_fits hfits, Nat.add_zero]

theorem hasRoom (text : String) : d.output.HasRoom text :=
  Output.hasRoom_of_unlimited (congrArg Output.limit hd) text

/-- A list of samples stops where its first sample does that has no room. -/
theorem cut_putSamples (h : d.Shows samples e) (hheld : e.output.held.size ≤ size)
    (others : List Sample) :
    ∃ e', e.putSamples others = (none, e') ∧ d.Shows (samples ++ others) e' ∧
      Cut size (samples ++ others) e' ((e.within size).putSamples others) := by
  induction others generalizing samples e with
  | nil =>
      rw [List.append_nil]
      exact ⟨e, rfl, h, .fits hheld⟩
  | cons sample others ih =>
      have hfirst : e.putSample sample = _ := h.putSample (hasRoom hd _)
      have hcut := cut_putSample hd h hheld sample
      have hafter : d.Shows (samples ++ [sample]) (d.after (samples ++ [sample])) := .after _
      rw [List.append_cons, putSamples, hfirst, putSamples]
      generalize (e.within size).putSample sample = result at hcut
      cases hcut with
      | fits hfits => exact ih hafter hfits
      | full hlong houtput hcount =>
          obtain ⟨e', hrest, hshows⟩ := hafter.putSamples others (hasRoom hd _)
          refine ⟨e', hrest, hshows, ?_⟩
          obtain rfl : e' = d.after _ := hshows.eq_or_eq_after.resolve_left (by simp)
          exact (Cut.full hlong houtput hcount).append hd others

theorem cut_call (h : d.Shows samples e) (hheld : e.output.held.size ≤ size) (c : Call) :
    ∃ e', e.call c = (none, e') ∧ d.Shows (samples ++ c.samples) e' ∧
      Cut size (samples ++ c.samples) e' ((e.within size).call c) := by
  cases c with
  | header =>
      rw [Call.samples, List.append_nil]
      exact ⟨_, h.putHeader (hasRoom hd _), .after samples, cut_putHeader hd h hheld⟩
  | sample x => exact ⟨_, h.putSample (hasRoom hd _), .after _, cut_putSample hd h hheld x⟩
  | all others =>
      obtain ⟨e', hput, hshows, hcut⟩ := cut_putSamples hd h hheld others
      refine ⟨e', ?_, hshows, ?_⟩
      · rw [call, putAll, hput]
      · rw [call, putAll]
        generalize (e.within size).putSamples others = result at hcut
        cases hcut with
        | fits hfits => exact .fits hfits
        | full hlong houtput hcount => exact .full hlong houtput hcount

/-- The call that fails passes the limit, and leaves of the whole waveform what it leaves of
its own. -/
theorem cut_off {fault : Fault} {f : Dump} (h : d.Shows samples e)
    (hcut : Cut size samples e (some fault, f)) (others : List Sample) :
    size < e.output.held.size ∧
      Cut size (samples ++ others) (d.after (samples ++ others)) (some fault, f) := by
  have hlong : size < e.output.held.size := by cases hcut with | full hlong => exact hlong
  rcases h.eq_or_eq_after with ⟨-, rfl⟩ | rfl
  · rw [hd] at hlong
    exact absurd hlong (Nat.not_lt_zero size)
  · exact ⟨hlong, hcut.append hd others⟩

/-- Some calls go as they do where there is room, or there is a first one that does not. -/
theorem cut_calls (h : d.Shows samples e) (hheld : e.output.held.size ≤ size)
    (cs : List Call) :
    let all := samples ++ Call.allSamples cs
    (∃ e', e.calls cs = (none, e') ∧ d.Shows all e' ∧
      e'.output.held.size ≤ size ∧ (e.within size).calls cs = (none, e'.within size)) ∨
    ∃ before c behind e' next f, cs = before ++ c :: behind ∧ e.calls before = (none, e') ∧
      e'.output.held.size ≤ size ∧ (e.within size).calls before = (none, e'.within size) ∧
      (e'.within size).call c = (some (.device Output.full), f) ∧
      e.calls (before ++ [c]) = (none, next) ∧ size < next.output.held.size ∧
      Cut size all (d.after all) (some (.device Output.full), f) := by
  intro all
  induction cs generalizing samples e with
  | nil =>
      have hall : all = samples := List.append_nil samples
      rw [hall]
      exact .inl ⟨e, rfl, h, hheld, rfl⟩
  | cons c cs ih =>
      obtain ⟨next, hcall, hshows, hcut⟩ := cut_call hd h hheld c
      generalize hresult : (e.within size).call c = result at hcut
      have hall : all = samples ++ c.samples ++ Call.allSamples cs := by
        show samples ++ Call.allSamples (c :: cs) = _
        rw [Call.allSamples, List.flatMap_cons, List.append_assoc]
        rfl
      have hfree (cs : List Call) : e.calls (c :: cs) = next.calls cs := by rw [calls, hcall]
      rw [hall]
      cases hcut with
      | fits hfits =>
          have hlimited (cs : List Call) : (e.within size).calls (c :: cs) =
              (next.within size).calls cs := by
            rw [calls, hresult]
          rcases ih hshows hfits with ⟨e', hcalls, hshows', hheld', hwithin⟩ |
            ⟨before, c', behind, e', next', f, rfl, hbefore, hheld', hwithin, hfault, hcalls,
              hlong, hcut⟩
          · refine .inl ⟨e', ?_, hshows', hheld', ?_⟩
            · rw [hfree, hcalls]
            · rw [hlimited, hwithin]
          · refine .inr
              ⟨c :: before, c', behind, e', next', f, rfl, ?_, hheld', ?_, hfault, ?_, hlong,
                hcut⟩
            · rw [hfree, hbefore]
            · rw [hlimited, hwithin]
            · rw [List.cons_append, hfree, hcalls]
      | full hlong houtput hcount =>
          obtain ⟨hlong, hcut⟩ :=
            cut_off hd hshows (.full hlong houtput hcount) (Call.allSamples cs)
          exact .inr
            ⟨[], c, cs, e, next, _, rfl, rfl, hheld, rfl, hresult, hfree [], hlong, hcut⟩

theorem cut_finish (h : d.Shows samples e) (hheld : e.output.held.size ≤ size) :
    let whole := (text d.pinout d.settings samples).toUTF8
    (whole.size ≤ size → (e.within size).finish =
      (none, { held := whole, limit := some size })) ∧
      (size < whole.size →
        (e.within size).finish =
          (some (.device Output.full), { held := whole.extract 0 size }) ∧
          e.count = linesWithin d.pinout d.settings size samples) := by
  intro whole
  have hwhole : (d.after samples).output = { held := whole } := output_after hd samples
  have hcut := cut_putHeader hd h hheld
  rw [finish]
  generalize (e.within size).putHeader = result at hcut ⊢
  cases hcut with
  | fits hfits =>
      rw [hwhole] at hfits
      refine ⟨fun _ => ?_, fun hlong => absurd hfits (Nat.not_le.mpr hlong)⟩
      show (none, { (d.after samples).output with limit := some size }) = _
      rw [hwhole]
  | full hlong houtput hcount =>
      rw [hwhole] at hlong houtput
      refine ⟨fun hfits => absurd hfits (Nat.not_le.mpr hlong),
        fun _ => ⟨congrArg (_, ·) houtput, ?_⟩⟩
      rcases h.eq_or_eq_after with ⟨rfl, -⟩ | rfl
      · exact h.count
      · rw [hwhole] at hheld
        exact absurd hheld (Nat.not_le.mpr hlong)

end

end Dump

/-! ### Whole waveforms -/

/-- It makes no difference in what parts a device takes a text. A waveform whose text fits is
written on an output of `size` bytes as on one that never runs full. Of any other, the first
call fails with which the text that is due passes the limit, or the end does, if it has to
supply a header that has no room; the fault is that of the output, which then holds the first
bytes of the whole text, and the samples counted are those whose whole lines these are. -/
theorem calls_of_limit (hs : s.fault? = none) (cs : List Call) (size : Nat) :
    let samples := Call.allSamples cs
    let whole := (text p s samples).toUTF8
    let free : Dump := { output := .unlimited, pinout := p, settings := s }
    let limited : Dump := { output := .limited size, pinout := p, settings := s }
    (∀ (o : Output) (text : String) (result : Option String × Output),
      (∀ limit ∈ o.limit, o.held.size ≤ limit) →
      (o.Stores text.toUTF8 result ↔ result = o.write text)) ∧
    Dump.start .unlimited p s = .ok free ∧ Dump.start (.limited size) p s = .ok limited ∧
    (∃ e, free.calls cs = (none, e) ∧ e.finish = (none, { held := whole })) ∧
    if whole.size ≤ size then
      ∃ e, limited.calls cs = (none, e) ∧ e.count = samples.length ∧
        e.finish = (none, { held := whole, limit := some size })
    else
      (∃ before c behind e f, cs = before ++ c :: behind ∧
        limited.calls before = (none, e) ∧ e.call c = (some (.device Output.full), f) ∧
        (free.calls before).2.output.held.size ≤ size ∧
        size < (free.calls (before ++ [c])).2.output.held.size ∧
        f.output = { held := whole.extract 0 size } ∧ f.count = linesWithin p s size samples) ∨
      ∃ e, limited.calls cs = (none, e) ∧ (free.calls cs).2.output.held.size ≤ size ∧
        e.finish = (some (.device Output.full), { held := whole.extract 0 size }) ∧
        e.count = linesWithin p s size samples := by
  intro samples whole free limited
  have hfree : free.Shows [] free := .fresh rfl rfl
  have hstart (output : Output) :
      Dump.start output p s = .ok { output, pinout := p, settings := s } := by
    rw [Dump.start, Settings.check_of_fault hs]
    rfl
  have hwhole : (free.after samples).output = { held := whole } :=
    Dump.output_after rfl samples
  refine ⟨fun o text result => Output.stores_iff, hstart _, hstart _, ?_, ?_⟩
  · obtain ⟨e, hcalls, hshows⟩ := hfree.calls cs (Dump.hasRoom rfl _)
    refine ⟨e, hcalls, ?_⟩
    rw [Dump.finish, hshows.putHeader (Dump.hasRoom rfl _)]
    exact congrArg (none, ·) hwhole
  · have hempty : free.output.held.size ≤ size := Nat.zero_le size
    have hrun := Dump.cut_calls rfl hfree hempty cs
    by_cases hfits : whole.size ≤ size
    · rw [if_pos hfits]
      rcases hrun with ⟨e, -, hshows, hheld, hlimited⟩ |
        ⟨_, _, _, _, _, _, -, -, -, -, -, -, -, hcut⟩
      · obtain ⟨hfinish, -⟩ := Dump.cut_finish rfl hshows hheld
        exact ⟨_, hlimited, hshows.count, hfinish hfits⟩
      · cases hcut with
        | full hlong =>
            rw [List.nil_append, hwhole] at hlong
            exact absurd hfits (Nat.not_le.mpr hlong)
    · rw [if_neg hfits]
      rcases hrun with ⟨e, hcalls, hshows, hheld, hlimited⟩ |
        ⟨before, c, behind, e, next, f, hcs, hbefore, hheld, hlimited, hfault, hcalls, hnext,
          hcut⟩
      · obtain ⟨hfinish, hcount⟩ := (Dump.cut_finish rfl hshows hheld).2 (Nat.not_le.mp hfits)
        refine .inr ⟨_, hlimited, ?_, hfinish, hcount⟩
        rw [hcalls]
        exact hheld
      · cases hcut with
        | full hlong houtput hcount =>
            rw [List.nil_append, hwhole] at houtput
            refine .inl
              ⟨before, c, behind, _, f, hcs, hlimited, hfault, ?_, ?_, houtput, hcount⟩
            · rw [hbefore]
              exact hheld
            · rw [hcalls]
              exact hnext

/-- The limit lies within the line of the second sample of a list, behind a list without
any. -/
theorem calls_of_limit_within_list :
    let p : Pinout := { signals := [⟨0, 1, "INT", "i"⟩, ⟨1, 2, "DA", "a"⟩], width := 3 }
    let limited : Dump := { output := .limited 195, pinout := p, settings := {} }
    let calls : List Call :=
      [.all [], .sample ⟨0, 1⟩, .all [⟨7, 3⟩, ⟨10, 5⟩, ⟨15, 0⟩], .header]
    Settings.fault? {} = none ∧
      ∃ before c behind e f, calls = before ++ c :: behind ∧ limited.calls before = (none, e) ∧
        e.call c = (some (.device Output.full), f) ∧ f.count = 2 ∧
        f.output.held.size = 195 := by
  intro p limited calls
  have hs : Settings.fault? {} = none := by decide +kernel
  have hlong : ¬ (text p {} (Call.allSamples calls)).toUTF8.size ≤ 195 := by decide +kernel
  have hlines : linesWithin p {} 195 (Call.allSamples calls) = 2 := by decide +kernel
  obtain ⟨-, -, -, -, hlimited⟩ := calls_of_limit (p := p) hs calls 195
  rw [if_neg hlong] at hlimited
  refine ⟨hs, ?_⟩
  rcases hlimited with
    ⟨before, c, behind, e, f, hcalls, hbefore, hfault, -, -, houtput, hcount⟩ |
    ⟨e, -, hheld, -⟩
  · refine ⟨before, c, behind, e, f, hcalls, hbefore, hfault, hcount.trans hlines, ?_⟩
    rw [houtput, ByteArray.size_extract]
    omega
  · exact absurd hheld (by decide +kernel)

end AtaCapture.Waveform
