import AtaCapture.Proofs.Pinout.Tiling

/-!
Which lists of signals are pinouts. The check sorts the signals and lays them next to each
other, but what it lets through can be said line by line: up to some offset every line is one
of exactly one signal, behind it none is, and the symbols are all different. So the order of
the list makes no difference.
-/

namespace AtaCapture

instance (s : Signal) (i : Nat) : Decidable (s.Has i) := inferInstanceAs (Decidable (_ ∧ _))

namespace Pinout

/-- Signals of some width, at least one, that have every line below `width` exactly once and no
other line, under symbols that are all different. -/
structure Exact (signals : List Signal) (width : Nat) : Prop where
  nonempty : signals ≠ []
  wide : ∀ s ∈ signals, 1 ≤ s.width
  once : ∀ i < width, signals.countP (·.Has i) = 1
  behind : ∀ i, width ≤ i → ∀ s ∈ signals, ¬ s.Has i
  fits : width ≤ 64
  symbols : signals.Pairwise (·.symbol ≠ ·.symbol)

variable {signals others : List Signal} {next width : Nat} {p : Pinout}

/-! ### Laying signals -/

/-- Signals in ascending order that tile the lines from `next` on can be laid there: the first
of them has the line `next`, since none begins before it. -/
theorem lay_of_tiling (hsorted : signals.Pairwise (·.bit ≤ ·.bit)) (hle : next ≤ width)
    (hfits : width < 2 ^ 32) (h : Tiling signals next width) : lay next signals =
      .ok width := by
  induction signals generalizing next with
  | nil =>
      have hend : ¬ next < width := fun hlt => by
        obtain ⟨s, hs, -⟩ := h.covered next (Nat.le_refl _) hlt
        cases hs
      rw [lay, Nat.le_antisymm hle (Nat.not_lt.mp hend)]
  | cons s signals ih =>
      obtain ⟨hfirst, hsorted⟩ := List.pairwise_cons.mp hsorted
      obtain ⟨hapart, haparts⟩ := List.pairwise_cons.mp h.apart
      have hwide := h.wide s (List.mem_cons_self ..)
      obtain ⟨hlower, hupper⟩ := h.inside s (List.mem_cons_self ..)
      have hbit : s.bit = next := by
        obtain ⟨t, ht, hhas⟩ := h.covered next (Nat.le_refl _) (by omega)
        have hmin : s.bit ≤ t.bit := by
          rcases List.mem_cons.mp ht with rfl | ht
          · exact Nat.le_refl _
          · exact hfirst t ht
        exact Nat.le_antisymm (Nat.le_trans hmin hhas.1) hlower
      have hbehind : ∀ t ∈ signals, next + s.width ≤ t.bit := by
        intro t ht
        have htwide := h.wide t (List.mem_cons_of_mem _ ht)
        have hmeet := hapart t ht t.bit
        have horder := hfirst t ht
        simp only [Signal.Has] at hmeet
        omega
      have hbound : next + s.width < 2 ^ 32 := by omega
      rw [lay_cons_eq_ok, above_of_lt hbound]
      refine ⟨hwide, hbit, ih hsorted (by omega) ?_⟩
      refine ⟨fun t ht => h.wide t (List.mem_cons_of_mem _ ht), fun t ht => ⟨hbehind t ht, ?_⟩,
        ?_, haparts⟩
      · exact (h.inside t (List.mem_cons_of_mem _ ht)).2
      · intro i hlo hhi
        obtain ⟨t, ht, hhas⟩ := h.covered i (by omega) hhi
        rcases List.mem_cons.mp ht with rfl | ht
        · exact absurd hhas.2 (by omega)
        · exact ⟨t, ht, hhas⟩

theorem pairwise_sortByBit (signals : List Signal) :
    (sortByBit signals).Pairwise (·.bit ≤ ·.bit) := by
  have htrans (a b c : Signal) (hab : decide (a.bit ≤ b.bit)) (hbc : decide (b.bit ≤ c.bit)) :
      decide (a.bit ≤ c.bit) :=
    decide_eq_true (Nat.le_trans (of_decide_eq_true hab) (of_decide_eq_true hbc))
  have htotal (a b : Signal) : decide (a.bit ≤ b.bit) || decide (b.bit ≤ a.bit) := by
    rw [Bool.or_eq_true, decide_eq_true_eq, decide_eq_true_eq]
    exact Nat.le_total ..
  exact (List.pairwise_mergeSort htrans htotal signals).imp of_decide_eq_true

theorem lay_sortByBit_eq_ok (hfits : lineCount signals < 2 ^ 32) (hwidth : width < 2 ^ 32) :
    lay 0 (sortByBit signals) = .ok width ↔ Tiling signals 0 width := by
  have hperm : (sortByBit signals).Perm signals := List.mergeSort_perm ..
  constructor
  · exact fun h => (tiling_of_lay (by rwa [Nat.zero_add, lineCount_perm hperm]) h).perm hperm
  · intro h
    exact lay_of_tiling (pairwise_sortByBit signals) (Nat.zero_le _) hwidth (h.perm hperm.symm)

/-! ### Line by line -/

/-- At most one element of a list has a property if no two of them have it. -/
theorem countP_le_one_iff {α : Type} {q : α → Bool} {xs : List α} :
    xs.countP q ≤ 1 ↔ xs.Pairwise fun a b => ¬ (q a ∧ q b) := by
  induction xs with
  | nil => simp
  | cons a xs ih =>
      rw [List.countP_cons, List.pairwise_cons, ← ih]
      cases ha : q a with
      | false => simp
      | true =>
          have hnone : xs.countP q = 0 ↔ ∀ b ∈ xs, ¬ q b := List.countP_eq_zero
          simp only [if_pos, true_and, ← hnone]
          omega

theorem exact_iff_tiling (hwide : ∀ s ∈ signals, 1 ≤ s.width) :
    ((∀ i < width, signals.countP (·.Has i) = 1) ∧ ∀ i, width ≤ i → ∀ s ∈ signals, ¬ s.Has i) ↔
      Tiling signals 0 width := by
  have hcount (i : Nat) : signals.countP (·.Has i) ≤ 1 ↔
      signals.Pairwise fun s t => ¬ (s.Has i ∧ t.Has i) := by
    rw [countP_le_one_iff]
    simp only [decide_eq_true_eq]
  have hcovered (i : Nat) : 0 < signals.countP (·.Has i) ↔ ∃ s ∈ signals, s.Has i := by
    rw [List.countP_pos_iff]
    simp only [decide_eq_true_eq]
  constructor
  · rintro ⟨honce, hbehind⟩
    refine ⟨hwide, fun s hs => ⟨Nat.zero_le _, ?_⟩, fun i _ hi => ?_, ?_⟩
    · have hpos := hwide s hs
      have hlast : s.Has (s.bit + s.width - 1) := ⟨by omega, by omega⟩
      have hbelow : ¬ width ≤ s.bit + s.width - 1 := fun hle => hbehind _ hle s hs hlast
      omega
    · exact (hcovered i).mp (by rw [honce i hi]; exact Nat.one_pos)
    · refine List.pairwise_iff_forall_sublist.mpr fun {s t} hsub i => ?_
      by_cases hi : i < width
      · exact List.pairwise_iff_forall_sublist.mp
          ((hcount i).mp (Nat.le_of_eq (honce i hi))) hsub
      · exact fun hboth => hbehind i (Nat.not_lt.mp hi) s
          (hsub.subset (List.mem_cons_self ..)) hboth.1
  · intro h
    refine ⟨fun i hi => Nat.le_antisymm ?_ ?_, fun i hi s hs hhas => ?_⟩
    · exact (hcount i).mpr (h.apart.imp fun hnot => hnot i)
    · exact (hcovered i).mpr (h.covered i (Nat.zero_le _) hi)
    · have := (h.inside s hs).2
      exact absurd hhas.2 (by omega)

theorem repeatedSymbol_eq_none {seen : List String} : repeatedSymbol seen signals = none ↔
    signals.Pairwise (·.symbol ≠ ·.symbol) ∧ ∀ s ∈ signals, s.symbol ∉ seen := by
  induction signals generalizing seen with
  | nil => simp [repeatedSymbol]
  | cons s signals ih =>
      rw [repeatedSymbol]
      by_cases hseen : s.symbol ∈ seen
      · simp [hseen]
      · rw [if_neg hseen, ih, List.pairwise_cons, List.forall_mem_cons]
        simp only [List.mem_cons, not_or, forall_and, hseen, not_false_eq_true, true_and]
        tauto

theorem check_eq_ok_iff (hfits : lineCount signals < 2 ^ 32) :
    check signals = .ok width ↔ Exact signals width := by
  rw [check_eq_ok, repeatedSymbol_eq_none]
  constructor
  · rintro ⟨hne, hlay, hwidth, hsymbols, -⟩
    have htiling := (lay_sortByBit_eq_ok hfits (by omega)).mp hlay
    obtain ⟨honce, hbehind⟩ := (exact_iff_tiling htiling.wide).mpr htiling
    exact ⟨hne, htiling.wide, honce, hbehind, hwidth, hsymbols⟩
  · intro h
    have hwidth := h.fits
    have htiling := (exact_iff_tiling h.wide).mp ⟨h.once, h.behind⟩
    have hlay := (lay_sortByBit_eq_ok hfits (by omega)).mpr htiling
    exact ⟨h.nonempty, hlay, hwidth, h.symbols, by simp⟩

theorem ofSignals_eq_ok_iff (hfits : lineCount signals < 2 ^ 32) :
    ofSignals signals = .ok p ↔ p.signals = signals ∧ Exact signals p.width := by
  rw [ofSignals_eq_ok, check_eq_ok_iff hfits, and_comm]

theorem Exact.perm (h : Exact signals width) (hperm : signals.Perm others) :
    Exact others width where
  nonempty hnil := h.nonempty (List.perm_nil.mp (hnil ▸ hperm))
  wide s hs := h.wide s (hperm.mem_iff.mpr hs)
  once i hi := (hperm.countP_eq _).symm.trans (h.once i hi)
  behind i hi s hs := h.behind i hi s (hperm.mem_iff.mpr hs)
  fits := h.fits
  symbols := h.symbols.perm hperm fun hne => hne.symm

/-- A list of signals whose lines can be counted in 32 bits is a pinout if and only if it is
not empty, every signal has a line, each of the lines up to some width of at most 64 is one of
exactly one signal and no other line of any, and the symbols are all different. The pinout
keeps the signals as they are listed, and has that width. In another order the signals are a
pinout of the same width, or none. -/
theorem ofSignals_iff_exact (signals : List Signal) (hfits : lineCount signals < 2 ^ 32) :
    ((∃ p, ofSignals signals = .ok p) ↔ ∃ width, Exact signals width) ∧
      (∀ p, ofSignals signals = .ok p ↔ p.signals = signals ∧ Exact signals p.width) ∧
      ∀ others width, signals.Perm others →
        ((∃ p, ofSignals others = .ok p ∧ p.width = width) ↔
          ∃ p, ofSignals signals = .ok p ∧ p.width = width) := by
  have hwidth {signals : List Signal} (hfits : lineCount signals < 2 ^ 32) (width : Nat) :
      (∃ p, ofSignals signals = .ok p ∧ p.width = width) ↔ Exact signals width := by
    constructor
    · rintro ⟨p, hp, rfl⟩
      exact ((ofSignals_eq_ok_iff hfits).mp hp).2
    · exact fun h => ⟨⟨signals, width⟩, (ofSignals_eq_ok_iff hfits).mpr ⟨rfl, h⟩, rfl⟩
  refine ⟨⟨?_, ?_⟩, fun p => ofSignals_eq_ok_iff hfits, fun others width hperm => ?_⟩
  · rintro ⟨p, hp⟩
    exact ⟨p.width, ((ofSignals_eq_ok_iff hfits).mp hp).2⟩
  · rintro ⟨width, h⟩
    exact ⟨⟨signals, width⟩, (ofSignals_eq_ok_iff hfits).mpr ⟨rfl, h⟩⟩
  · rw [hwidth hfits, hwidth (lineCount_perm hperm ▸ hfits)]
    exact ⟨fun h => h.perm hperm.symm, fun h => h.perm hperm⟩

/-- A bus that is listed before the line below it. -/
theorem ofSignals_iff_exact_descending :
    let bus : Signal := { bit := 1, width := 3, name := "DA", symbol := "A" }
    let line : Signal := { bit := 0, width := 1, name := "DIOW", symbol := "W" }
    lineCount [bus, line] < 2 ^ 32 ∧ [bus, line].Perm [line, bus] ∧ Exact [bus, line] 4 ∧
      ofSignals [bus, line] = .ok ⟨[bus, line], 4⟩ ∧
      ∃ p, ofSignals [line, bus] = .ok p ∧ p.width = 4 := by
  intro bus line
  have hfits : lineCount [bus, line] < 2 ^ 32 := by decide
  have hperm : [bus, line].Perm [line, bus] := .swap ..
  have hexact : Exact [bus, line] 4 := by
    have hinside : ∀ s ∈ [bus, line], s.bit + s.width ≤ 4 := by decide
    refine ⟨by decide, by decide, by decide, fun i hi s hs hhas => ?_, by decide, by decide⟩
    exact absurd hhas.2 (Nat.not_lt.mpr (Nat.le_trans (hinside s hs) hi))
  obtain ⟨-, haccepts, hanyOrder⟩ := ofSignals_iff_exact [bus, line] hfits
  have hok : ofSignals [bus, line] = .ok ⟨[bus, line], 4⟩ := (haccepts _).mpr ⟨rfl, hexact⟩
  exact ⟨hfits, hperm, hexact, hok, (hanyOrder _ 4 hperm).mpr ⟨_, hok, rfl⟩⟩

end Pinout

end AtaCapture
