import AtaCapture.Proofs.Ata.Levels
import AtaCapture.Proofs.Pinout.Acceptance

/-!
The lines of the bus within a pinout. A line is found as a signal of its own or on a bus, and
signals may share a name; but the names of the bus lines are such that no signal can answer to
two of them with the same line. So where all of them are found they are different lines of the
pinout, and the masks made of them have one bit for each. Only a pinout whose signals have more
lines than can be counted in 32 bits may place them behind its last line.
-/

namespace AtaCapture

namespace Pinout

variable {signals : List Signal} {first bound i : Nat} {s t : Signal} {p : Pinout}

theorem Accepted.below (h : p.Accepted) (hfits : lineCount p.signals < 2 ^ 32) :
    ∀ s ∈ p.signals, s.bit + s.width ≤ 64 := fun s hs =>
  Nat.le_trans ((h.tiling hfits).inside s hs).2 h.width_le

end Pinout

namespace Ata

variable {p : Pinout} {l : Lines} {i j : Nat}

/-! ### Names -/

namespace LineName

def required : List LineName := data ++ iow :: ior :: address

/-- No signal has one line under both names. -/
def Apart (n m : LineName) : Prop :=
  n.line ≠ m.line ∧ n.line ≠ m.bus ∧ n.bus ≠ m.line ∧ (n.bus ≠ m.bus ∨ n.index ≠ m.index)

instance : DecidableRel Apart := fun _ _ => inferInstanceAs (Decidable (_ ∧ _ ∧ _ ∧ _))

section

variable (hp : p.Accepted) (hfits : Pinout.lineCount p.signals < 2 ^ 32)
include hp hfits

end

end LineName

/-! ### Lines -/

namespace Lines

def required (l : Lines) : List Nat := l.data ++ l.iow :: l.ior :: l.address

def all (l : Lines) : List Nat := l.dataSelect.toList ++ l.required

/-- The lines of the bus are in a pinout where they are found by their names. -/
structure LiesIn (l : Lines) (p : Pinout) : Prop where
  data : LineName.data.map (·.locate p) = l.data.map some
  iow : LineName.iow.locate p = some l.iow
  ior : LineName.ior.locate p = some l.ior
  address : LineName.address.map (·.locate p) = l.address.map some
  dataSelect : LineName.dataSelect.locate p = l.dataSelect

theorem LiesIn.required (h : l.LiesIn p) :
    LineName.required.map (·.locate p) = l.required.map some := by
  rw [LineName.required, Lines.required, List.map_append, List.map_append, List.map_cons,
    List.map_cons, h.data, h.iow, h.ior, h.address]
  rfl

/-- The lines are what the names give, one after the other. -/
theorem LiesIn.all (h : l.LiesIn p) :
    (LineName.dataSelect :: LineName.required).filterMap (·.locate p) = l.all := by
  have hrequired : LineName.required.filterMap (·.locate p) = l.required :=
    calc LineName.required.filterMap (·.locate p)
        = (LineName.required.map (·.locate p)).filterMap id := by rw [List.filterMap_map]; rfl
      _ = (l.required.map some).filterMap id := by rw [h.required]
      _ = l.required := by rw [List.filterMap_map]; exact List.filterMap_some
  rw [List.filterMap_cons, hrequired, h.dataSelect, Lines.all]
  cases l.dataSelect <;> rfl

end Lines

namespace Monitor

end Monitor

end Ata

end AtaCapture
