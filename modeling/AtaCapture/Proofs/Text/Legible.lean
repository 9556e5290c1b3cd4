import AtaCapture.Instances
import AtaCapture.Text.Numeral
import Mathlib

/-!
Texts that can be read back. What is written of a value is legible up to a relation when any
text that begins with it tells the value, up to the relation, and what follows. Legible pieces
are legible in a row, so a form with fields of fixed length, and numerals that end in front of
something else than a digit, is legible; and so are its lines.
-/

namespace AtaCapture

namespace Numeral

/-- Zeros on the left do not count. -/
theorem ofDigitChars_binary (width n : Nat) :
    Nat.ofDigitChars 2 (binary width n).toList 0 = n := by
  rw [binary, String.toList_ofList, List.leftpad, Nat.ofDigitChars_append,
    Nat.ofDigitChars_replicate_zero, Nat.mul_zero,
    Nat.ofDigitChars_toDigits (by decide) (by decide)]

theorem binary_inj {width m n : Nat} : binary width m = binary width n ↔ m = n := by
  refine ⟨fun h => ?_, congrArg _⟩
  rw [← ofDigitChars_binary width m, h, ofDigitChars_binary]

/-- A value that the width holds does not pass it. -/
theorem length_binary {width n : Nat} (hwidth : 0 < width) (hn : n < 2 ^ width) :
    (binary width n).toList.length = width := by
  have hdigits : (Nat.toDigits 2 n).length ≤ width :=
    (Nat.length_toDigits_le_iff (by decide) hwidth).mpr hn
  rw [binary, String.toList_ofList, List.length_leftpad, Nat.max_eq_left hdigits]

theorem length_repr_of_lt_two {n : Nat} (h : n < 2) : n.repr.toList.length = 1 := by
  obtain rfl | rfl : n = 0 ∨ n = 1 := by omega
  · rfl
  · rfl

/-! Hexadecimal digits are read in either case. -/

def hexDigit (c : Char) : Nat :=
  if c.isDigit then c.toNat - '0'.toNat else c.toLower.toNat - 'a'.toNat + 10

def hexValue (digits : List Char) : Nat := digits.foldl (fun n c => 16 * n + hexDigit c) 0

theorem hexValue_leftpad (width : Nat) (digits : List Char) :
    hexValue (digits.leftpad width '0') = hexValue digits := by
  have hzeros (n : Nat) :
      (List.replicate n '0').foldl (fun n c => 16 * n + hexDigit c) 0 = 0 := by
    induction n with
    | zero => rfl
    | succ n ih => exact ih
  rw [hexValue, List.leftpad, List.foldl_append, hzeros]
  rfl

theorem hexValue_toDigits {shape : Char → Char}
    (hshape : ∀ d < 16, hexDigit (shape d.digitChar) = d) (n : Nat) :
    hexValue ((Nat.toDigits 16 n).map shape) = n := by
  induction n using Nat.base_induction 16 (by decide) with
  | single d hd =>
      rw [Nat.toDigits_of_lt_base hd]
      exact (Nat.zero_add _).trans (hshape d hd)
  | digit n d hd hn ih =>
      rw [← Nat.toDigits_append_toDigits (by decide) hn hd, Nat.toDigits_of_lt_base hd,
        List.map_append, hexValue, List.foldl_append]
      show 16 * hexValue ((Nat.toDigits 16 n).map shape) + hexDigit (shape d.digitChar) = _
      rw [ih, hshape d hd]

theorem hexValue_upperHex (width n : Nat) : hexValue (upperHex width n).toList = n := by
  rw [upperHex, String.toList_ofList, hexValue_leftpad, hexValue_toDigits (by decide)]

theorem hexValue_lowerHex (width n : Nat) : hexValue (lowerHex width n).toList = n := by
  have hdigits := @hexValue_toDigits id (by decide) n
  rw [List.map_id] at hdigits
  rw [lowerHex, String.toList_ofList, hexValue_leftpad, hdigits]

theorem upperHex_inj {width m n : Nat} : upperHex width m = upperHex width n ↔ m = n := by
  refine ⟨fun h => ?_, congrArg _⟩
  rw [← hexValue_upperHex width m, h, hexValue_upperHex]

theorem lowerHex_inj {width m n : Nat} : lowerHex width m = lowerHex width n ↔ m = n := by
  refine ⟨fun h => ?_, congrArg _⟩
  rw [← hexValue_lowerHex width m, h, hexValue_lowerHex]

theorem length_upperHex {width n : Nat} (hwidth : 0 < width) (hn : n < 16 ^ width) :
    (upperHex width n).toList.length = width := by
  have hdigits : (Nat.toDigits 16 n).length ≤ width :=
    (Nat.length_toDigits_le_iff (by decide) hwidth).mpr hn
  rw [upperHex, String.toList_ofList, List.length_leftpad, List.length_map,
    Nat.max_eq_left hdigits]

theorem length_lowerHex {width n : Nat} (hwidth : 0 < width) (hn : n < 16 ^ width) :
    (lowerHex width n).toList.length = width := by
  have hdigits : (Nat.toDigits 16 n).length ≤ width :=
    (Nat.length_toDigits_le_iff (by decide) hwidth).mpr hn
  rw [lowerHex, String.toList_ofList, List.length_leftpad, Nat.max_eq_left hdigits]

end Numeral

/-- Texts that begin with `write a` and `write b` are the same text just when `a` and `b` are
the same, and so is the rest. -/
def Legible {α : Type*} (write : α → String) (same : α → α → Prop) : Prop :=
  ∀ (a b : α) (u v : List Char),
    (write a).toList ++ u = (write b).toList ++ v ↔ same a b ∧ u = v

namespace Legible

variable {α ι : Type*} {write next : α → String} {same alike : α → α → Prop}

theorem congr (h : Legible write same) (hsame : ∀ a b, same a b ↔ alike a b) :
    Legible write alike := by
  intro a b u v
  rw [h a b u v, hsame a b]

/-- A text that is always the same says nothing, and is in nobody's way. -/
theorem const (text : String) : Legible (fun _ : α => text) fun _ _ => True := by
  intro _ _ u v
  rw [List.append_cancel_left_eq, true_and]

theorem append (h : Legible write same) (hnext : Legible next alike) :
    Legible (fun a => write a ++ next a) fun a b => same a b ∧ alike a b := by
  intro a b u v
  rw [String.toList_append, String.toList_append, List.append_assoc, List.append_assoc, h,
    hnext, and_assoc]

theorem join {writes : ι → α → String} {agree : ι → α → α → Prop} {fields : List ι}
    (h : ∀ i ∈ fields, Legible (writes i) (agree i)) :
    Legible (fun a => String.join (fields.map fun i => writes i a))
      fun a b => ∀ i ∈ fields, agree i a b := by
  induction fields with
  | nil => exact (const "").congr fun a b => by simp
  | cons i fields ih =>
      have hrest := ih fun j hj => h j (List.mem_cons_of_mem _ hj)
      intro a b u v
      have hrow := (h i (List.mem_cons_self ..)).append hrest a b u v
      simpa only [List.map_cons, String.join_cons, List.forall_mem_cons] using hrow

theorem between (h : Legible write same) (before behind : String) :
    Legible (fun a => before ++ write a ++ behind) same :=
  (((const before).append h).append (const behind)).congr fun a b => by rw [true_and, and_true]

theorem of_length {length : Nat} (hlength : ∀ a, (write a).toList.length = length)
    (hsame : ∀ a b, write a = write b ↔ same a b) : Legible write same := by
  intro a b u v
  rw [← hsame a b, ← String.toList_inj]
  constructor
  · intro h
    exact List.append_inj h ((hlength a).trans (hlength b).symm)
  · rintro ⟨htext, rfl⟩
    rw [htext]

/-- A text is legible in front of a character that it does not contain. -/
theorem closed {stop : String} {c : Char} (hstop : stop.toList = [c])
    (hfree : ∀ a, c ∉ (write a).toList) (hsame : ∀ a b, write a = write b ↔ same a b) :
    Legible (fun a => write a ++ stop) same := by
  intro a b u v
  have hends (a : α) (u : List Char) :
      ((write a).toList ++ c :: u).takeWhile (· ≠ c) = (write a).toList := by
    have hbefore : ∀ d ∈ (write a).toList, decide (d ≠ c) := fun d hd =>
      decide_eq_true fun hdc : d = c => hfree a (hdc ▸ hd)
    rw [List.takeWhile_append_of_pos hbefore, List.takeWhile_cons_of_neg (by simp),
      List.append_nil]
  rw [String.toList_append, String.toList_append, hstop, List.append_assoc, List.append_assoc,
    List.singleton_append, List.singleton_append, ← hsame a b]
  constructor
  · intro h
    have htext : (write a).toList = (write b).toList := by rw [← hends a u, h, hends b v]
    rw [htext, List.append_cancel_left_eq, List.cons_inj_right] at h
    exact ⟨String.toList_inj.mp htext, h⟩
  · rintro ⟨htext, rfl⟩
    rw [htext]

/-! ### Parts of a text -/

/-- What a text begins with is read whatever comes behind it. -/
theorem of_beginning (h : Legible write same) {a b : α} {s t : String}
    (heq : write a ++ s = write b ++ t) : same a b ∧ s = t := by
  have hchars := congrArg String.toList heq
  rw [String.toList_append, String.toList_append, h] at hchars
  exact ⟨hchars.1, String.toList_inj.mp hchars.2⟩

/-- What a text ends with is read if it has a fixed length, whatever stands in front of it. -/
theorem of_end {length : Nat} (h : Legible write same)
    (hlength : ∀ a, (write a).toList.length = length) {a b : α}
    {s t : String} (heq : s ++ write a = t ++ write b) : same a b := by
  have hchars := congrArg String.toList heq
  rw [String.toList_append, String.toList_append] at hchars
  have hend := (List.append_inj' hchars ((hlength a).trans (hlength b).symm)).2
  exact ((h a b [] []).mp (by rw [hend])).1

/-! ### Numerals -/

theorem digit (number : α → Nat) (hnumber : ∀ a, number a < 2) :
    Legible (fun a => (number a).repr) fun a b => number a = number b :=
  of_length (fun a => Numeral.length_repr_of_lt_two (hnumber a))
    fun _ _ => ⟨fun h => Nat.repr_injective h, congrArg Nat.repr⟩

/-- So are as many of them as hold the value. -/
theorem binary {width : Nat} (number : α → Nat) (hwidth : 0 < width)
    (hnumber : ∀ a, number a < 2 ^ width) :
    Legible (fun a => Numeral.binary width (number a)) fun a b => number a = number b :=
  of_length (fun a => Numeral.length_binary hwidth (hnumber a)) fun _ _ => Numeral.binary_inj

theorem upperHex {width : Nat} (number : α → Nat) (hwidth : 0 < width)
    (hnumber : ∀ a, number a < 16 ^ width) :
    Legible (fun a => Numeral.upperHex width (number a)) fun a b => number a = number b :=
  of_length (fun a => Numeral.length_upperHex hwidth (hnumber a)) fun _ _ =>
    Numeral.upperHex_inj

theorem lowerHex {width : Nat} (number : α → Nat) (hwidth : 0 < width)
    (hnumber : ∀ a, number a < 16 ^ width) :
    Legible (fun a => Numeral.lowerHex width (number a)) fun a b => number a = number b :=
  of_length (fun a => Numeral.length_lowerHex hwidth (hnumber a)) fun _ _ =>
    Numeral.lowerHex_inj

/-- The digits in front of something else are all there is of them. -/
theorem takeWhile_repr (n : Nat) {rest : List Char}
    (hrest : ∀ c ∈ rest.head?, c.isDigit = false) :
    (n.repr.toList ++ rest).takeWhile Char.isDigit = n.repr.toList := by
  have hdigits : ∀ c ∈ n.repr.toList, c.isDigit := fun c hc =>
    Nat.isDigit_of_mem_toDigits (by decide) (by decide) (Nat.toList_repr ▸ hc)
  rw [List.takeWhile_append_of_pos hdigits]
  cases rest with
  | nil => simp
  | cons c rest => rw [List.takeWhile_cons, hrest c rfl]; simp

/-- A numeral is legible in front of what never begins with a digit. -/
theorem repr_append (number : α → Nat) (hnext : Legible next alike)
    (hbreak : ∀ a, ∃ c rest, (next a).toList = c :: rest ∧ c.isDigit = false) :
    Legible (fun a => (number a).repr ++ next a) fun a b =>
      number a = number b ∧ alike a b := by
  intro a b u v
  have hends : ∀ (a : α) (u : List Char),
      ((number a).repr.toList ++ ((next a).toList ++ u)).takeWhile Char.isDigit
        = (number a).repr.toList := by
    intro a u
    obtain ⟨c, rest, hnexta, hc⟩ := hbreak a
    refine takeWhile_repr _ fun d hd => ?_
    rw [hnexta, List.cons_append, List.head?_cons, Option.mem_some] at hd
    rw [← hd, hc]
  rw [String.toList_append, String.toList_append, List.append_assoc, List.append_assoc]
  constructor
  · intro h
    have hdigits : (number a).repr.toList = (number b).repr.toList := by
      rw [← hends a u, h, hends b v]
    rw [hdigits, List.append_cancel_left_eq, hnext] at h
    exact ⟨⟨Nat.repr_injective (String.toList_inj.mp hdigits), h.1⟩, h.2⟩
  · rintro ⟨⟨hnumber, halike⟩, hrest⟩
    rw [hnumber, List.append_cancel_left_eq, hnext]
    exact ⟨halike, hrest⟩

/-! ### Lines -/

/-- Lines that are not empty tell how many there are, and each of them. -/
theorem join_eq_iff (h : Legible write same) (hwrite : ∀ a, write a ≠ "") {xs ys : List α} :
    String.join (xs.map write) = String.join (ys.map write) ↔ List.Forall₂ same xs ys := by
  have hlines : ∀ (xs : List α), (String.join (xs.map write)).toList
      = xs.flatMap fun a => (write a).toList := by
    intro xs
    rw [String.toList_join, List.flatMap_map]
  have hline : ∀ a, (write a).toList ≠ [] := fun a => by
    rw [Ne, String.toList_eq_nil_iff]
    exact hwrite a
  rw [← String.toList_inj, hlines, hlines]
  induction xs generalizing ys with
  | nil =>
      cases ys with
      | nil => simp
      | cons b ys => simp [hline b]
  | cons a xs ih =>
      cases ys with
      | nil => simp [hline a]
      | cons b ys =>
          rw [List.flatMap_cons, List.flatMap_cons, h, List.forall₂_cons]
          exact and_congr_right fun _ => ih

end Legible

end AtaCapture
