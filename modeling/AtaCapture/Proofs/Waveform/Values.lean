import AtaCapture.Proofs.Ata.Sessions
import AtaCapture.Proofs.Sample.Packed
import AtaCapture.Waveform.Dump
import Mathlib

/-!
One value in several places. A bus is the value of its lines, in order, whether it is cut out
of the levels or collected from them. So a waveform that declares a bus shows the digits that
another one shows for its lines, and they are those of the value that is taken off the bus when
an access ends.
-/

namespace AtaCapture

namespace Sample

variable (s : Sample)

theorem bus_eq_scattered (offset width : Nat) :
    s.bus offset width = s.scattered (List.range' offset width) := by
  rw [bus_eq, scattered_range', Nat.shiftRight_eq_div_pow]

theorem testBit_scattered_of_lt {offsets : List Nat} {i : Nat} (h : i < offsets.length) :
    (s.scattered offsets).testBit i = s.level offsets[i] := by
  rw [testBit_scattered, List.getElem?_eq_getElem h, Option.any_some]

theorem testBit_scattered_of_le {offsets : List Nat} {i : Nat} (h : offsets.length ≤ i) :
    (s.scattered offsets).testBit i = false := by
  rw [testBit_scattered, List.getElem?_eq_none h, Option.any_none]

end Sample

theorem Packed.bus_eq_scattered (levels : BitVec 64) (offset : Nat) {width : Nat}
    (h : width ≤ 64) :
    bus levels offset width = scattered levels (List.range' offset width) := by
  let s : Sample := ⟨0, levels.toNat⟩
  have hlevels : levels.toNat = s.levels := rfl
  have hlength : (List.range' offset width).length ≤ 64 := by rwa [List.length_range']
  rw [← BitVec.toNat_inj, toNat_bus hlevels offset h, toNat_scattered hlevels hlength,
    s.bus_eq_scattered]

/-! ### Digits and bits -/

namespace Numeral

theorem toList_binary (width n : Nat) :
    (binary width n).toList = (Nat.toDigits 2 n).leftpad width '0' := by
  rw [binary, String.toList_ofList]

theorem leftpad_concat (width : Nat) (digits : List Char) (digit : Char) :
    (digits ++ [digit]).leftpad (width + 1) '0' = digits.leftpad width '0' ++ [digit] := by
  rw [List.leftpad, List.leftpad, List.length_append, List.length_singleton,
    Nat.add_sub_add_right, List.append_assoc]

theorem leftpad_zero {width : Nat} (hwidth : 0 < width) :
    (Nat.toDigits 2 0).leftpad width '0' = List.replicate width '0' := by
  obtain ⟨width, rfl⟩ := Nat.exists_eq_succ_of_ne_zero hwidth.ne'
  rw [Nat.toDigits_zero, ← List.nil_append ['0'], leftpad_concat, List.leftpad,
    List.append_nil, List.length_nil, Nat.sub_zero, List.replicate_succ']

/-- The last digit is the lowest bit. -/
theorem binary_succ {width : Nat} (hwidth : 0 < width) (n : Nat) :
    binary (width + 1) n = binary width (n / 2) ++ (n.testBit 0).toNat.repr := by
  have hlow : (n.testBit 0).toNat = n % 2 := by
    have h := Nat.toNat_testBit n 0
    rwa [Nat.pow_zero, Nat.div_one] at h
  have hlast : n % 2 < 2 := Nat.mod_lt n (by decide)
  rw [← String.toList_inj, String.toList_append, toList_binary, toList_binary, hlow,
    Nat.toList_repr, Nat.toDigits_of_lt_base (b := 10) (by omega)]
  by_cases hn : n < 2
  · rw [Nat.toDigits_of_lt_base hn, Nat.div_eq_of_lt hn, Nat.mod_eq_of_lt hn,
      leftpad_zero hwidth]
    rfl
  · have hrest : 0 < n / 2 := by omega
    have hdigits := Nat.toDigits_append_toDigits (b := 2) (by decide) hrest hlast
    rw [Nat.div_add_mod, Nat.toDigits_of_lt_base hlast] at hdigits
    rw [← hdigits, leftpad_concat]

def bits (width n : Nat) : List String :=
  (List.range width).reverse.map fun i => (n.testBit i).toNat.repr

theorem bits_succ (width n : Nat) :
    bits (width + 1) n = bits width (n / 2) ++ [(n.testBit 0).toNat.repr] := by
  rw [bits, List.range_succ_eq_map, List.reverse_cons, List.map_append, List.map_singleton,
    ← List.map_reverse, List.map_map, bits]
  refine congrArg (· ++ _) (List.map_congr_left fun i _ => ?_)
  rw [Function.comp_apply, Nat.testBit_succ]

/-- A numeral that is wide enough has a digit for every bit. -/
theorem binary_eq_join {width n : Nat} (hwidth : 0 < width) (hn : n < 2 ^ width) :
    binary width n = String.join (bits width n) := by
  induction width, hwidth using Nat.le_induction generalizing n with
  | base =>
      obtain rfl | rfl : n = 0 ∨ n = 1 := by omega
      · rfl
      · rfl
  | succ width hwidth ih =>
      have hhalf : n / 2 < 2 ^ width := by omega
      rw [binary_succ hwidth, ih hhalf, bits_succ, String.join_append, String.join_cons,
        String.join_nil, String.append_empty]

end Numeral

/-! ### What a waveform shows -/

namespace Waveform

def digits (signal : Signal) (s : Sample) : String :=
  Numeral.binary signal.width (s.bus signal.bit signal.width)

def entry (signal : Signal) (digits : String) : String :=
  if signal.width = 1 then " " ++ digits ++ signal.symbol
  else " b" ++ digits ++ " " ++ signal.symbol

def shown (p : Pinout) (name : String) (s : Sample) : Option String :=
  (p.find? name).map fun signal => digits signal s

/-- Waveforms show a value twice: that of `p` digit by digit, on lines, and that of `q` on a
bus. -/
def ShowTwice (p q : Pinout) (line : Nat → String) (bus : String) (width value : Nat)
    (s : Sample) : Prop :=
  ∃ digits : List String,
    (List.range width).reverse.map (fun i => shown p (line i) s) = digits.map some ∧
    shown q bus s = some (String.join digits) ∧ String.join digits = Numeral.binary width value

theorem digits_eq_join {signal : Signal} (hwide : 0 < signal.width) (s : Sample) :
    digits signal s =
      String.join (Numeral.bits signal.width (s.bus signal.bit signal.width)) :=
  Numeral.binary_eq_join hwide (s.bus_lt ..)

theorem digits_of_single {signal : Signal} (hsingle : signal.width = 1) (s : Sample) :
    digits signal s = (s.level signal.bit).toNat.repr := by
  have hbit : (s.bus signal.bit 1).testBit 0 = s.level signal.bit := by
    rw [Sample.testBit_bus, decide_eq_true Nat.one_pos, Bool.true_and, Nat.add_zero]
  have hbits : Numeral.bits 1 (s.bus signal.bit 1) = [(s.level signal.bit).toNat.repr] := by
    rw [← hbit]
    rfl
  rw [digits_eq_join (hsingle ▸ Nat.one_pos), hsingle, hbits, String.join_cons,
    String.join_nil, String.append_empty]

theorem valueText_eq_entry (signal : Signal) (s : Sample) :
    valueText signal s = entry signal (digits signal s) := by
  rw [valueText, entry]
  by_cases hsingle : signal.width = 1
  · have hvalue : s.bus signal.bit signal.width = (s.level signal.bit).toNat := by
      rw [hsingle, Sample.bus_eq, Nat.shiftRight_eq_div_pow]
      exact (Nat.toNat_testBit ..).symm
    rw [if_pos hsingle, if_pos hsingle, digits_of_single hsingle, hvalue]
  · rw [if_neg hsingle, if_neg hsingle]
    rfl

theorem sampleLine_eq_entries (p : Pinout) (settings : Settings) (s : Sample) :
    sampleLine p settings s =
      "#" ++ (s.time / settings.divider).repr ++
        String.join (p.signals.map fun signal => entry signal (digits signal s)) ++ "\n" := by
  rw [sampleLine, List.map_congr_left fun signal _ => valueText_eq_entry signal s]

theorem showTwice_bus {p q : Pinout} {line : Nat → String} {name : String} {bus : Signal}
    (hbus : q.find? name = some bus) (hwide : 0 < bus.width)
    (hlines : ∀ i < bus.width,
      ∃ x, p.find? (line i) = some x ∧ x.bit = bus.bit + i ∧ x.width = 1)
    (s : Sample) : ShowTwice p q line name bus.width (s.bus bus.bit bus.width) s := by
  refine ⟨Numeral.bits bus.width (s.bus bus.bit bus.width), ?_, ?_,
    (digits_eq_join hwide s).symm⟩
  · rw [Numeral.bits, List.map_map]
    refine List.map_congr_left fun i hi => ?_
    have hi : i < bus.width := List.mem_range.mp (List.mem_reverse.mp hi)
    obtain ⟨x, hfind, hbit, hsingle⟩ := hlines i hi
    rw [shown, hfind, Option.map_some, digits_of_single hsingle, hbit, Function.comp_apply,
      Sample.testBit_bus, decide_eq_true hi, Bool.true_and]
  · rw [shown, hbus, Option.map_some, digits_eq_join hwide]

/-! ### The buses of the recorder -/

theorem find?_data : Pinout.grouped.find? "DATA" = some ⟨8, 16, "DATA", "d"⟩ := by
  rfl

theorem find?_address : Pinout.grouped.find? "DA" = some ⟨2, 3, "DA", "A"⟩ := by
  rfl

theorem find?_dataLine :
    ∀ i < 16, ∃ x, Pinout.flat.find? s!"D{i}" = some x ∧ x.bit = 8 + i ∧ x.width = 1 := by
  decide

theorem find?_addressLine :
    ∀ i < 3, ∃ x, Pinout.flat.find? s!"DA{i}" = some x ∧ x.bit = 2 + i ∧ x.width = 1 := by
  decide

theorem bus_data (s : Sample) : s.bus 8 16 = (Ata.Lines.recorder.dataOf s).toNat := by
  rw [Ata.Lines.dataOf, BitVec.toNat_ofNat,
    show Ata.Lines.recorder.data = List.range' 8 16 from rfl, ← Sample.bus_eq_scattered,
    Nat.mod_eq_of_lt (s.bus_lt ..)]

/-- The chip selects follow the three address lines. -/
theorem bus_address (s : Sample) : s.bus 2 3 = (Ata.Lines.recorder.addressOf s).toNat % 8 := by
  rw [Ata.Lines.addressOf, BitVec.toNat_ofNat,
    show Ata.Lines.recorder.address = List.range' 2 5 from rfl, ← Sample.bus_eq_scattered,
    Sample.bus_eq, Sample.bus_eq]
  omega

/-- A sample has one value for neighbouring lines, however it is read, and scattered lines keep
their levels in theirs. A word of 64 levels gives the same. The recorder's two pinouts have the
lines of the bus in the same places; in their waveforms the lines one by one and the buses
spell the same values, and these are the data and the address that an access takes from the
sample. -/
theorem same_values (s : Sample) (settings : Settings) :
    (∀ offset width, s.bus offset width = s.scattered (List.range' offset width)) ∧
      (∀ offsets : List Nat,
        (∀ i (h : i < offsets.length), (s.scattered offsets).testBit i = s.level offsets[i]) ∧
        ∀ i, offsets.length ≤ i → (s.scattered offsets).testBit i = false) ∧
      (∀ levels : BitVec 64, levels.toNat = s.levels →
        (∀ offset width, 1 ≤ width → offset + width ≤ 64 →
          Packed.bus levels offset width = Packed.scattered levels (List.range' offset width) ∧
            (Packed.bus levels offset width).toNat = s.bus offset width) ∧
        ∀ offsets : List Nat, offsets.length ≤ 64 →
          (Packed.scattered levels offsets).toNat = s.scattered offsets) ∧
      (∀ p : Pinout, sampleLine p settings s =
        "#" ++ (s.time / settings.divider).repr ++
          String.join (p.signals.map fun signal => entry signal (digits signal s)) ++ "\n") ∧
      ∃ l, Ata.Lines.ofPinout .flat = .ok l ∧ Ata.Lines.ofPinout .grouped = .ok l ∧
        ShowTwice .flat .grouped (fun i => s!"D{i}") "DATA" 16 (l.dataOf s).toNat s ∧
        ShowTwice .flat .grouped (fun i => s!"DA{i}") "DA" 3
          ((l.addressOf s).toNat % 8) s := by
  refine ⟨s.bus_eq_scattered, fun offsets => ?_, fun levels hlevels => ?_,
    fun p => sampleLine_eq_entries p settings s, .recorder, Ata.Lines.ofPinout_flat,
    Ata.Lines.ofPinout_grouped, ?_, ?_⟩
  · exact ⟨fun i => s.testBit_scattered_of_lt, fun i => s.testBit_scattered_of_le⟩
  · refine ⟨fun offset width _ hfits => ?_, fun offsets => Packed.toNat_scattered hlevels⟩
    have hwidth : width ≤ 64 := by omega
    exact ⟨Packed.bus_eq_scattered levels offset hwidth,
      Packed.toNat_bus hlevels offset hwidth⟩
  · rw [← bus_data]
    exact showTwice_bus find?_data (by decide) find?_dataLine s
  · rw [← bus_address]
    exact showTwice_bus find?_address (by decide) find?_addressLine s

end Waveform

end AtaCapture
