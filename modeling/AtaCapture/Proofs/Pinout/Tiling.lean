import AtaCapture.Pinout
import Mathlib

/-!
Pinouts tile their lines. The check lays the signals next to each other in ascending order and
keeps none that leaves a gap or meets another; so every line of an accepted pinout belongs to
one signal, in whatever order they are listed, and every signal keeps to the lines of the
pinout. This is so as long as the offsets keep to their 32 bits: signals with more lines than
that come back to the low offsets, and their pinout has fewer lines than they have.
-/

namespace AtaCapture

def Signal.Has (s : Signal) (i : Nat) : Prop := s.bit ≤ i ∧ i < s.bit + s.width

namespace Pinout

def lineCount (signals : List Signal) : Nat := (signals.map (·.width)).sum

/-- Signals of some width that share no line and have exactly the lines from `first` up to
`bound`. -/
structure Tiling (signals : List Signal) (first bound : Nat) : Prop where
  wide : ∀ s ∈ signals, 0 < s.width
  inside : ∀ s ∈ signals, first ≤ s.bit ∧ s.bit + s.width ≤ bound
  covered : ∀ i, first ≤ i → i < bound → ∃ s ∈ signals, s.Has i
  apart : signals.Pairwise fun s t => ∀ i, ¬ (s.Has i ∧ t.Has i)

/-- A pinout that the check let through, or one of the recorder's own. -/
inductive Accepted : Pinout → Prop
  | flat : Accepted .flat
  | grouped : Accepted .grouped
  | ofSignals {signals : List Signal} {p : Pinout} (h : ofSignals signals = .ok p) : Accepted p

variable {signals others : List Signal} {s : Signal} {next first bound : Nat} {p : Pinout}

theorem lineCount_cons (s : Signal) (signals : List Signal) :
    lineCount (s :: signals) = s.width + lineCount signals := by
  rw [lineCount, List.map_cons, List.sum_cons, lineCount]

theorem lineCount_perm (h : signals.Perm others) : lineCount signals = lineCount others :=
  (h.map _).sum_eq

theorem lay_cons_eq_ok : lay next (s :: signals) = .ok bound ↔
    0 < s.width ∧ s.bit = next ∧ lay (above next s.width) signals = .ok bound := by
  rw [lay]
  split
  · simp_all
  · split
    · simp only [reduceCtorEq, false_iff]
      omega
    · split
      · simp only [reduceCtorEq, false_iff]
        omega
      · have hbit : s.bit = next := by omega
        rw [hbit, and_iff_right rfl, and_iff_right (by omega)]

theorem wide_of_lay (h : lay next signals = .ok bound) : ∀ s ∈ signals, 0 < s.width := by
  induction signals generalizing next with
  | nil => simp
  | cons s signals ih =>
      obtain ⟨hwide, -, hrest⟩ := lay_cons_eq_ok.mp h
      exact List.forall_mem_cons.mpr ⟨hwide, ih hrest⟩

/-- Below the 32 bits of an offset nothing starts over. -/
theorem bound_of_lay (hfits : next + lineCount signals < 2 ^ 32)
    (h : lay next signals = .ok bound) : bound = next + lineCount signals := by
  induction signals generalizing next with
  | nil => exact (Except.ok.inj h).symm
  | cons s signals ih =>
      obtain ⟨-, -, hrest⟩ := lay_cons_eq_ok.mp h
      rw [lineCount_cons] at hfits ⊢
      rw [above_of_lt (by omega)] at hrest
      rw [ih (by omega) hrest, Nat.add_assoc]

theorem tiling_of_lay (hfits : next + lineCount signals < 2 ^ 32)
    (h : lay next signals = .ok bound) : Tiling signals next bound := by
  induction signals generalizing next with
  | nil =>
      obtain rfl := Except.ok.inj h
      exact ⟨by simp, by simp, fun i hfirst hbound => absurd hbound (by omega), .nil⟩
  | cons s signals ih =>
      have hend := bound_of_lay hfits h
      obtain ⟨hwide, hbit, hrest⟩ := lay_cons_eq_ok.mp h
      rw [lineCount_cons] at hfits hend
      rw [above_of_lt (by omega)] at hrest
      have htail := ih (by omega) hrest
      refine ⟨?_, ?_, ?_, ?_⟩
      · exact List.forall_mem_cons.mpr ⟨hwide, htail.wide⟩
      · refine List.forall_mem_cons.mpr ⟨by omega, fun t ht => ?_⟩
        have := htail.inside t ht
        omega
      · intro i hfirst hi
        by_cases hhere : i < next + s.width
        · exact ⟨s, List.mem_cons_self .., by omega, by omega⟩
        · obtain ⟨t, ht, hhas⟩ := htail.covered i (by omega) hi
          exact ⟨t, List.mem_cons_of_mem _ ht, hhas⟩
      · refine List.pairwise_cons.mpr ⟨fun t ht i hboth => ?_, htail.apart⟩
        have hafter := htail.inside t ht
        obtain ⟨⟨-, hs⟩, ht, -⟩ := hboth
        omega

/-- A tiling does not depend on the order of the signals. -/
theorem Tiling.perm (h : Tiling signals first bound) (hperm : signals.Perm others) :
    Tiling others first bound where
  wide s hs := h.wide s (hperm.mem_iff.mpr hs)
  inside s hs := h.inside s (hperm.mem_iff.mpr hs)
  covered i hfirst hbound := by
    obtain ⟨s, hs, hhas⟩ := h.covered i hfirst hbound
    exact ⟨s, hperm.mem_iff.mp hs, hhas⟩
  apart := h.apart.perm hperm fun hst i hboth => hst i hboth.symm

theorem check_eq_ok : check signals = .ok bound ↔
    signals ≠ [] ∧ lay 0 (sortByBit signals) = .ok bound ∧ bound ≤ 64 ∧
      repeatedSymbol [] signals = none := by
  rw [check]
  split
  · simp_all
  · rename_i hsome
    have hne : signals ≠ [] := fun h => hsome (by rw [h]; rfl)
    cases hlay : lay 0 (sortByBit signals) with
    | error cause => simp
    | ok width =>
        dsimp only
        split
        · simp only [reduceCtorEq, false_iff, Except.ok.injEq]
          omega
        · cases hsymbol : repeatedSymbol [] signals with
          | some symbol => simp
          | none =>
              simp only [Except.ok.injEq, ne_eq, hne, not_false_eq_true, true_and, and_true]
              omega

theorem ofSignals_eq_ok : ofSignals signals = .ok p ↔
    check signals = .ok p.width ∧ p.signals = signals := by
  rw [ofSignals]
  cases hcheck : check signals with
  | error cause => simp
  | ok width =>
      simp only [Except.ok.injEq]
      constructor
      · rintro rfl
        exact ⟨rfl, rfl⟩
      · rintro ⟨rfl, rfl⟩
        rfl

theorem wide_of_ofSignals (h : ofSignals signals = .ok p) : ∀ s ∈ p.signals, 0 < s.width := by
  obtain ⟨hcheck, hsignals⟩ := ofSignals_eq_ok.mp h
  obtain ⟨-, hlay, -, -⟩ := check_eq_ok.mp hcheck
  intro s hs
  exact wide_of_lay hlay s ((List.mergeSort_perm ..).mem_iff.mpr (hsignals ▸ hs))

theorem tiling_of_ofSignals (hfits : lineCount signals < 2 ^ 32)
    (h : ofSignals signals = .ok p) : Tiling p.signals 0 p.width := by
  obtain ⟨hcheck, hsignals⟩ := ofSignals_eq_ok.mp h
  obtain ⟨-, hlay, -, -⟩ := check_eq_ok.mp hcheck
  have hperm : (sortByBit signals).Perm signals := List.mergeSort_perm ..
  rw [hsignals]
  exact (tiling_of_lay (by rwa [Nat.zero_add, lineCount_perm hperm]) hlay).perm hperm

/-- The recorder's lines are a pinout that lists its signals in ascending order. -/
theorem tiling_flat : Tiling flat.signals 0 flat.width := tiling_of_lay (by decide) (by decide)

theorem tiling_grouped : Tiling grouped.signals 0 grouped.width :=
  tiling_of_lay (by decide) (by decide)

namespace Accepted

/-- Every signal of a pinout has a line, however many there are. -/
theorem wide (h : p.Accepted) : ∀ s ∈ p.signals, 0 < s.width := by
  cases h with
  | flat => exact tiling_flat.wide
  | grouped => exact tiling_grouped.wide
  | ofSignals h => exact wide_of_ofSignals h

theorem width_le (h : p.Accepted) : p.width ≤ 64 := by
  cases h with
  | flat => decide
  | grouped => decide
  | ofSignals h => exact (check_eq_ok.mp (ofSignals_eq_ok.mp h).1).2.2.1

theorem tiling (h : p.Accepted) (hfits : lineCount p.signals < 2 ^ 32) :
    Tiling p.signals 0 p.width := by
  cases h with
  | flat => exact tiling_flat
  | grouped => exact tiling_grouped
  | ofSignals h => exact tiling_of_ofSignals ((ofSignals_eq_ok.mp h).2 ▸ hfits) h

end Accepted

end Pinout

end AtaCapture
