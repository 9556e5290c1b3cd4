import AtaCapture.Text.Numeral
import Mathlib

/-!
Lines of text. A line is what stands in front of a line break; numerals have none, nor has what
is put together from texts without one, so a text of lines has as many line breaks as lines.
-/

namespace AtaCapture

def OneLine (text : String) : Prop := '\n' ∉ text.toList

instance (text : String) : Decidable (OneLine text) :=
  inferInstanceAs (Decidable ('\n' ∉ text.toList))

namespace OneLine

variable {first second : String} {texts : List String}

@[simp] theorem append_iff : OneLine (first ++ second) ↔ OneLine first ∧ OneLine second := by
  rw [OneLine, OneLine, OneLine, String.toList_append, List.mem_append, not_or]

theorem intercalate {separator : String} (hseparator : OneLine separator)
    (htexts : ∀ text ∈ texts, OneLine text) : OneLine (separator.intercalate texts) := by
  induction texts with
  | nil =>
      rw [String.intercalate_nil]
      decide
  | cons text texts ih =>
      obtain ⟨htext, hrest⟩ := List.forall_mem_cons.mp htexts
      cases texts with
      | nil => rwa [String.intercalate_singleton]
      | cons next texts =>
          rw [String.intercalate_cons_cons]
          exact append_iff.mpr ⟨append_iff.mpr ⟨htext, hseparator⟩, ih hrest⟩

/-! ### Numerals -/

theorem mem_toDigits {b n : Nat} (hb : 1 < b) {c : Char} (hc : c ∈ Nat.toDigits b n) :
    ∃ d < b, c = d.digitChar := by
  induction n using Nat.strongRecOn with
  | ind n ih =>
      rw [Nat.toDigits_eq_if hb] at hc
      split at hc
      · exact ⟨n, ‹_›, List.mem_singleton.mp hc⟩
      · rename_i hlong
        rcases List.mem_append.mp hc with hc | hc
        · exact ih (n / b) (Nat.div_lt_self (by omega) hb) hc
        · exact ⟨n % b, Nat.mod_lt _ (by omega), List.mem_singleton.mp hc⟩

@[simp] theorem repr (n : Nat) : OneLine n.repr := by
  intro h
  rw [Nat.toList_repr] at h
  exact absurd (Nat.isDigit_of_mem_toDigits (by decide) (by decide) h) (by decide)

theorem leftpad {digits : List Char} (hdigits : '\n' ∉ digits) (width : Nat) :
    OneLine (String.ofList (digits.leftpad width '0')) := by
  rw [OneLine, String.toList_ofList, List.leftpad, List.mem_append, not_or]
  exact ⟨fun h => absurd (List.eq_of_mem_replicate h) (by decide), hdigits⟩

@[simp] theorem upperHex (width n : Nat) : OneLine (Numeral.upperHex width n) := by
  refine leftpad (fun h => ?_) width
  obtain ⟨c, hc, hupper⟩ := List.mem_map.mp h
  obtain ⟨d, hd, rfl⟩ := mem_toDigits (by decide) hc
  exact (by decide : ∀ d < 16, d.digitChar.toUpper ≠ '\n') d hd hupper

@[simp] theorem lowerHex (width n : Nat) : OneLine (Numeral.lowerHex width n) := by
  refine leftpad (fun h => ?_) width
  obtain ⟨d, hd, hdigit⟩ := mem_toDigits (by decide) h
  exact (by decide : ∀ d < 16, d.digitChar ≠ '\n') d hd hdigit.symm

end OneLine

/-- Lines have a line break each. -/
theorem count_lines {α : Type*} {line : α → String} {xs : List α}
    (h : ∀ a ∈ xs, ∃ text, OneLine text ∧ line a = text ++ "\n") :
    (String.join (xs.map line)).toList.count '\n' = xs.length := by
  induction xs with
  | nil => rfl
  | cons a xs ih =>
      obtain ⟨⟨text, htext, hline⟩, hrest⟩ := List.forall_mem_cons.mp h
      rw [List.map_cons, String.join_cons, String.toList_append, List.count_append, ih hrest,
        hline, String.toList_append, List.count_append, List.count_eq_zero_of_not_mem htext,
        List.length_cons]
      show 0 + 1 + xs.length = xs.length + 1
      omega

end AtaCapture
