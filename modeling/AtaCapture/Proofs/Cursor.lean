import AtaCapture.Cursor

/-!
Where a cursor stands in its source. All that matters of a cursor is the sample taken last and
the samples that are still to come; whether one of them was looked at already makes no
difference. Every operation is described by these two alone.
-/

namespace AtaCapture

def Source.live : Source → List Sample
  | some s :: rest => s :: live rest
  | _ => []

namespace Cursor

def upcoming (c : Cursor) : List Sample :=
  if c.ended then [] else c.ahead.toList ++ c.source.live

/-- The cursor has taken `current` last and has still to give `rest`. -/
structure Stands (c : Cursor) (current : Option Sample) (rest : List Sample) : Prop where
  current : c.current = current
  upcoming : c.upcoming = rest
  /-- The end is not seen while a sample waits to be taken. -/
  settled : c.ended → c.ahead = none

theorem live_map_some (samples : List Sample) : Source.live (samples.map some) = samples := by
  induction samples with
  | nil => rfl
  | cons s samples ih => rw [List.map_cons, Source.live, ih]

theorem stands_ofSamples (samples : List Sample) :
    (ofSamples samples).Stands none samples where
  current := rfl
  upcoming := live_map_some samples
  settled := by simp [ofSamples, ofSource]

variable {c : Cursor} {current : Option Sample} {s : Sample} {rest : List Sample}

/-! ### Taking and looking -/

theorem next_nil (h : c.Stands current []) :
    ∃ c', c.next = (none, c') ∧ c'.Stands current [] := by
  obtain ⟨hcurrent, hupcoming, hsettled⟩ := h
  obtain ⟨source, ahead, now, ended⟩ := c
  cases ended with
  | true => exact ⟨_, rfl, hcurrent, rfl, hsettled⟩
  | false =>
      cases ahead with
      | some s => simp [upcoming] at hupcoming
      | none =>
          match source with
          | [] => exact ⟨_, rfl, hcurrent, rfl, fun _ => rfl⟩
          | none :: _ => exact ⟨_, rfl, hcurrent, rfl, fun _ => rfl⟩
          | some s :: _ => simp [upcoming, Source.live] at hupcoming

theorem next_cons (h : c.Stands current (s :: rest)) :
    ∃ c', c.next = (some s, c') ∧ c'.Stands (some s) rest := by
  obtain ⟨-, hupcoming, hsettled⟩ := h
  obtain ⟨source, ahead, now, ended⟩ := c
  cases ended with
  | true => simp [upcoming] at hupcoming
  | false =>
      cases ahead with
      | some t =>
          obtain ⟨rfl, rfl⟩ : t = s ∧ source.live = rest := by simpa [upcoming] using hupcoming
          exact ⟨_, rfl, rfl, rfl, by simp⟩
      | none =>
          match source with
          | [] => simp [upcoming, Source.live] at hupcoming
          | none :: _ => simp [upcoming, Source.live] at hupcoming
          | some t :: source =>
              obtain ⟨rfl, rfl⟩ : t = s ∧ Source.live source = rest := by
                simpa [upcoming, Source.live] using hupcoming
              exact ⟨_, rfl, rfl, rfl, by simp⟩

/-- Looking ahead shows what is taken next, and leaves the cursor where it stands. -/
theorem peek_eq (h : c.Stands current rest) :
    ∃ c', c.peek = (rest.head?, c') ∧ c'.Stands current rest := by
  obtain ⟨hcurrent, rfl, hsettled⟩ := h
  obtain ⟨source, ahead, now, ended⟩ := c
  cases ahead with
  | some s =>
      have hended : ended = false := by simpa using hsettled
      subst hended
      exact ⟨_, rfl, hcurrent, rfl, by simp⟩
  | none =>
      cases ended with
      | true => exact ⟨_, rfl, hcurrent, rfl, fun _ => rfl⟩
      | false =>
          match source with
          | [] => exact ⟨_, rfl, hcurrent, rfl, fun _ => rfl⟩
          | none :: _ => exact ⟨_, rfl, hcurrent, rfl, fun _ => rfl⟩
          | some s :: _ => exact ⟨_, rfl, hcurrent, rfl, by simp⟩

theorem time_eq (h : c.Stands (some s) rest) : c.time = s.time := by
  rw [time, h.current]
  rfl

/-! ### Waiting

Waiting goes sample by sample: a sample that changes no watched line is passed over, and the
wait goes on as if it began behind that sample. -/

variable {mask : Nat} {p : Sample}

theorem wait_nil (mask : Nat) (h : c.Stands (some p) []) :
    ∃ c', c.wait mask = (none, c') ∧ c'.Stands (some p) [] := by
  obtain ⟨c', hnext, hc'⟩ := next_nil h
  refine ⟨c', ?_, hc'⟩
  rw [wait, h.current]
  dsimp only
  rw [seek]
  split <;> simp_all

theorem wait_of_changes (h : c.Stands (some p) (s :: rest))
    (hchanges : changes mask p.levels s.levels) :
    ∃ c', c.wait mask = (some s, c') ∧ c'.Stands (some s) rest := by
  obtain ⟨c', hnext, hc'⟩ := next_cons h
  refine ⟨c', ?_, hc'⟩
  rw [wait, h.current]
  dsimp only
  rw [seek]
  split <;> simp_all

theorem wait_of_not_changes (h : c.Stands (some p) (s :: rest))
    (hsame : changes mask p.levels s.levels = false) :
    ∃ c' : Cursor, c.wait mask = c'.wait mask ∧ c'.Stands (some s) rest := by
  obtain ⟨c', hnext, hc'⟩ := next_cons h
  refine ⟨c', ?_, hc'⟩
  rw [wait, h.current, wait, hc'.current]
  dsimp only
  rw [seek]
  split <;> simp_all

/-- The very first sample is passed over as well. -/
theorem wait_first (mask : Nat) (h : c.Stands none (s :: rest)) :
    ∃ c' : Cursor, c.wait mask = c'.wait mask ∧ c'.Stands (some s) rest := by
  obtain ⟨c', hnext, hc'⟩ := next_cons h
  refine ⟨c', ?_, hc'⟩
  rw [wait, h.current, wait, hc'.current]
  dsimp only
  rw [hnext]

theorem wait_empty (mask : Nat) (h : c.Stands none []) :
    ∃ c', c.wait mask = (none, c') ∧ c'.Stands none [] := by
  obtain ⟨c', hnext, hc'⟩ := next_nil h
  refine ⟨c', ?_, hc'⟩
  rw [wait, h.current]
  dsimp only
  rw [hnext]

end Cursor

end AtaCapture
