import AtaCapture.Proofs.Cursor
import Mathlib.Data.LawfulXor.Basic

/-!
What a cursor takes from its source. It can be asked for the next sample, for a look at it or
for a wait, in any order; what it takes in all of this is the beginning of the source, sample
by sample. A wait compares each sample with the one before it, and still finds the first one
that differs from where it began, since those that it passes over differ from neither. Once the
source has ended, it is left alone.
-/

namespace AtaCapture.Cursor

inductive Call where
  | next
  | peek
  | wait (mask : Nat)
  deriving DecidableEq, Repr

def call (c : Cursor) : Call → Option Sample × Cursor
  | .next => c.next
  | .peek => c.peek
  | .wait mask => c.wait mask

def after (c : Cursor) : List Call → Cursor
  | [] => c
  | x :: calls => (c.call x).2.after calls

def answers (c : Cursor) : List Call → List (Option Sample)
  | [] => []
  | x :: calls => (c.call x).1 :: (c.call x).2.answers calls

/-! ### What is taken -/

/-- The samples that a search takes: those that it passes over, and the one that it finds. -/
def sought (c : Cursor) (mask before : Nat) : List Sample :=
  match _ : c.next with
  | (none, _) => []
  | (some s, c') => if changes mask before s.levels then [s] else s :: c'.sought mask s.levels
termination_by c.remaining
decreasing_by exact remaining_next_lt ‹_›

/-- The samples that a call takes, given or not. -/
def taken (c : Cursor) : Call → List Sample
  | .next => c.next.1.toList
  | .peek => []
  | .wait mask =>
    match c.current with
    | some s => c.sought mask s.levels
    | none =>
      match c.next with
      | (none, _) => []
      | (some s, c') => s :: c'.sought mask s.levels

def takenAll (c : Cursor) : List Call → List Sample
  | [] => []
  | x :: calls => c.taken x ++ (c.call x).2.takenAll calls

/-! ### Differences -/

/-- A sample differs from an earlier one in a watched line. If no line is watched, every sample
does. -/
def differs (mask : Nat) (before s : Sample) : Bool :=
  mask = 0 || s.levels &&& mask != before.levels &&& mask

variable {c : Cursor} {current : Option Sample} {rest : List Sample} {mask : Nat}
  {p q : Sample}

theorem changes_eq (mask : Nat) (p s : Sample) :
    changes mask p.levels s.levels = differs mask p s := by
  have hbits : (p.levels ^^^ s.levels) &&& mask = 0 ↔
      s.levels &&& mask = p.levels &&& mask := by
    rw [Nat.and_xor_distrib_right, xor_eq_zero_iff]
    exact eq_comm
  rw [changes, differs]
  congr 1
  rw [Bool.eq_iff_iff, bne_iff_ne, bne_iff_ne]
  exact not_congr hbits

/-- What differs from a sample that was passed over differs from where the search began. -/
theorem differs_of_passed (h : differs mask p q = false) :
    differs mask q = differs mask p := by
  obtain ⟨-, hsame⟩ := Bool.or_eq_false_iff.mp h
  funext s
  rw [differs, differs, bne_eq_false_iff_eq.mp hsame]

/-! ### One call -/

theorem next_eq (h : c.Stands current rest) :
    ∃ c', c.next = (rest.head?, c') ∧ c'.Stands (rest.head?.or current) rest.tail := by
  cases rest with
  | nil => exact next_nil h
  | cons s rest => exact next_cons h

/-- A search that compares with `p`. What it takes is all up to the first sample that differs
from `p`. -/
theorem seek_eq (mask : Nat) (p : Sample) (h : c.Stands current rest) :
    ∃ c', c.seek mask p.levels = (rest.find? (differs mask p), c') ∧
      c.sought mask p.levels = rest.take (rest.findIdx (differs mask p) + 1) ∧
      c'.Stands ((c.sought mask p.levels).getLast?.or current)
        (rest.drop (rest.findIdx (differs mask p) + 1)) := by
  induction rest generalizing c current p with
  | nil =>
      obtain ⟨c', hnext, hc'⟩ := next_nil h
      have hsought : c.sought mask p.levels = [] := by
        rw [sought]
        split <;> simp_all
      refine ⟨c', ?_, hsought, ?_⟩
      · rw [seek]
        split <;> simp_all
      · rw [hsought]
        exact hc'
  | cons s rest ih =>
      obtain ⟨c1, hnext, hc1⟩ := next_cons h
      have hseek : c.seek mask p.levels =
          if differs mask p s then (some s, c1) else c1.seek mask s.levels := by
        rw [seek, ← changes_eq]
        split <;> simp_all
      have hsought : c.sought mask p.levels =
          if differs mask p s then [s] else s :: c1.sought mask s.levels := by
        rw [sought, ← changes_eq]
        split <;> simp_all
      cases hdiffers : differs mask p s with
      | true =>
          rw [hseek, hsought, List.findIdx_cons, List.find?_cons, hdiffers]
          exact ⟨c1, rfl, rfl, hc1⟩
      | false =>
          -- The search goes on as if it had begun here, which makes no difference for what it
          -- finds.
          obtain ⟨c', hrest, htaken, hc'⟩ := ih s hc1
          rw [differs_of_passed hdiffers] at hrest htaken hc'
          rw [hseek, hsought, List.findIdx_cons, List.find?_cons, hdiffers]
          refine ⟨c', hrest, ?_, ?_⟩
          · simp [htaken]
          · simpa [List.getLast?_cons] using hc'

theorem wait_of_some (mask : Nat) (h : c.Stands (some p) rest) :
    (c.wait mask).1 = rest.find? (differs mask p) ∧
      c.taken (.wait mask) = rest.take (rest.findIdx (differs mask p) + 1) := by
  obtain ⟨c', hseek, htaken, -⟩ := seek_eq mask p h
  rw [wait, taken, h.current]
  exact ⟨congrArg Prod.fst hseek, htaken⟩

theorem wait_of_none (mask : Nat) (h : c.Stands none (p :: rest)) :
    (c.wait mask).1 = rest.find? (differs mask p) ∧
      c.taken (.wait mask) = p :: rest.take (rest.findIdx (differs mask p) + 1) := by
  obtain ⟨c1, hnext, hc1⟩ := next_cons h
  obtain ⟨c', hseek, htaken, -⟩ := seek_eq mask p hc1
  rw [wait, taken, h.current, hnext]
  exact ⟨congrArg Prod.fst hseek, congrArg (p :: ·) htaken⟩

theorem take_findIdx_of_find?_eq_none {samples : List Sample} {kind : Sample → Bool}
    (h : samples.find? kind = none) : samples.take (samples.findIdx kind + 1) = samples := by
  have hlength : samples.findIdx kind = samples.length :=
    List.findIdx_eq_length_of_false fun s hs => by simpa using List.find?_eq_none.mp h s hs
  exact List.take_of_length_le (Nat.le_succ_of_le (Nat.le_of_eq hlength.symm))

theorem taken_of_wait_eq_none (h : c.Stands current rest) (hnone : (c.wait mask).1 = none) :
    c.taken (.wait mask) = rest := by
  cases current with
  | some p =>
      obtain ⟨hfound, htaken⟩ := wait_of_some mask h
      rw [htaken, take_findIdx_of_find?_eq_none (hfound ▸ hnone)]
  | none =>
      cases rest with
      | nil =>
          obtain ⟨c', hnext, -⟩ := next_nil h
          rw [taken, h.current, hnext]
      | cons p rest =>
          obtain ⟨hfound, htaken⟩ := wait_of_none mask h
          rw [htaken, take_findIdx_of_find?_eq_none (hfound ▸ hnone)]

theorem call_of_exhausted (h : c.Stands current []) (x : Call) : (c.call x).1 = none := by
  obtain ⟨c', hnext, -⟩ := next_nil h
  cases x with
  | next => exact congrArg Prod.fst hnext
  | peek =>
      obtain ⟨c', hpeek, -⟩ := peek_eq h
      exact congrArg Prod.fst hpeek
  | wait mask =>
      cases current with
      | some p => exact (wait_of_some mask h).1
      | none => rw [call, wait, h.current, hnext]

/-- A call takes some of the samples in a row, and leaves the cursor behind them. -/
theorem stands_call (h : c.Stands current rest) (x : Call) :
    ∃ rest', rest = c.taken x ++ rest' ∧
      (c.call x).2.Stands ((c.taken x).getLast?.or current) rest' := by
  cases x with
  | next =>
      obtain ⟨c', hnext, hc'⟩ := next_eq h
      refine ⟨rest.tail, ?_, ?_⟩
      · rw [taken, hnext]
        cases rest <;> rfl
      · rw [taken, call, hnext]
        cases rest <;> exact hc'
  | peek =>
      obtain ⟨c', hpeek, hc'⟩ := peek_eq h
      refine ⟨rest, rfl, ?_⟩
      rw [call, hpeek]
      exact hc'
  | wait mask =>
      rw [call, wait, taken, h.current]
      cases current with
      | some p =>
          obtain ⟨c', hseek, htaken, hc'⟩ := seek_eq mask p h
          dsimp only
          rw [hseek]
          refine ⟨_, ?_, hc'⟩
          rw [htaken, List.take_append_drop]
      | none =>
          cases rest with
          | nil =>
              obtain ⟨c', hnext, hc'⟩ := next_nil h
              rw [hnext]
              exact ⟨[], rfl, hc'⟩
          | cons s rest =>
              obtain ⟨c1, hnext, hc1⟩ := next_cons h
              obtain ⟨c', hseek, htaken, hc'⟩ := seek_eq mask s hc1
              rw [hnext]
              dsimp only
              rw [hseek]
              refine ⟨rest.drop (rest.findIdx (differs mask s) + 1), ?_, ?_⟩
              · rw [htaken, List.cons_append, List.take_append_drop]
              · simpa [List.getLast?_cons] using hc'

/-! ### The end of the source

A call that gives nothing has seen the end, and no other call has. -/

theorem ended_next (c : Cursor) : c.next.2.ended = c.next.1.isNone := by
  rw [next]
  split
  · assumption
  · rename_i hended
    rw [Bool.not_eq_true] at hended
    cases c.ahead with
    | some s => exact hended
    | none =>
        simp only [ask]
        cases c.source with
        | nil => rfl
        | cons answer source =>
            cases answer with
            | none => rfl
            | some s => exact hended

theorem ended_seek (c : Cursor) (mask before : Nat) :
    (c.seek mask before).2.ended = (c.seek mask before).1.isNone := by
  fun_induction seek c mask before with
  | case1 c before c' hnext =>
      have hended := ended_next c
      rwa [hnext] at hended
  | case2 c before s c' hnext =>
      have hended := ended_next c
      rwa [hnext] at hended
  | case3 c before s c' hnext hsame ih => exact ih

theorem ended_call (h : c.Stands current rest) (x : Call) :
    (c.call x).2.ended = (c.call x).1.isNone := by
  cases x with
  | next => exact ended_next c
  | peek =>
      rw [call, peek]
      cases hahead : c.ahead with
      | some s =>
          refine Bool.eq_false_iff.mpr fun hended => ?_
          rw [h.settled hended] at hahead
          cases hahead
      | none =>
          dsimp only
          split
          · assumption
          · rename_i hended
            rw [Bool.not_eq_true] at hended
            simp only [ask]
            cases c.source with
            | nil => rfl
            | cons answer source =>
                cases answer with
                | none => rfl
                | some s => exact hended
  | wait mask =>
      rw [call, wait]
      split
      · exact ended_seek ..
      · split
        · rename_i c' hnext
          have hended := ended_next c
          rwa [hnext] at hended
        · exact ended_seek ..

/-- A cursor that has seen the end gives nothing, and does not ask again: any other source in
place of its own would be left as it is. -/
theorem call_of_ended (h : c.Stands current rest) (hended : c.ended) (other : Source)
    (x : Call) :
    ({ c with source := other } : Cursor).call x = (none, { c with source := other }) := by
  have hnext : ({ c with source := other } : Cursor).next =
      (none, { c with source := other }) := by
    rw [next, if_pos hended]
  cases x with
  | next => exact hnext
  | peek =>
      rw [call, peek, h.settled hended]
      exact if_pos hended
  | wait mask =>
      have hseek (before : Nat) :
          ({ c with source := other } : Cursor).seek mask before =
            (none, { c with source := other }) := by
        rw [seek]
        split <;> simp_all
      rw [call, wait, hnext]
      split
      · exact hseek _
      · rfl

/-! ### Any calls -/

/-- The samples that some calls take are those that come first, in order, and the cursor is
behind them. -/
theorem stands_after (h : c.Stands current rest) (calls : List Call) :
    ∃ rest', rest = c.takenAll calls ++ rest' ∧
      (c.after calls).Stands ((c.takenAll calls).getLast?.or current) rest' := by
  induction calls generalizing c current rest with
  | nil => exact ⟨rest, rfl, h⟩
  | cons x calls ih =>
      obtain ⟨rest1, rfl, h1⟩ := stands_call h x
      obtain ⟨rest2, rfl, h2⟩ := ih h1
      refine ⟨rest2, (List.append_assoc ..).symm, ?_⟩
      rw [takenAll, List.getLast?_append, Option.or_assoc]
      exact h2

theorem ended_after (h : c.Stands current rest) (calls : List Call) :
    (c.after calls).ended ↔ c.ended ∨ none ∈ c.answers calls := by
  induction calls generalizing c current rest with
  | nil => simp [after, answers]
  | cons x calls ih =>
      obtain ⟨rest1, -, h1⟩ := stands_call h x
      have hfirst : c.ended → (c.call x).1 = none := fun hended => by
        rw [call_of_ended h hended c.source x]
      rw [after, ih h1, ended_call h, answers, List.mem_cons, Option.isNone_iff_eq_none,
        eq_comm (a := none)]
      constructor
      · exact .inr
      · rintro (hended | hseen)
        · exact .inl (hfirst hended)
        · exact hseen

theorem stands_ofSource (source : Source) : (ofSource source).Stands none source.live where
  current := rfl
  upcoming := rfl
  settled := by simp [ofSource]

/-- Behind any calls, the samples taken are the first ones of the source, each of them once,
and the last of them is what the cursor shows as its current sample and time. The next sample
is the first one not taken, and a look at it changes nothing. A wait takes a first sample to
compare with if there is none yet; then it takes all up to the first sample that differs from
the current one in a watched line, and gives that, or else takes all that is left and gives
nothing. The cursor is at its end just when a call has given nothing. Then no sample is left,
nothing is given any more, and no source is asked. -/
theorem calls_of_source (source : Source) (calls : List Call) :
    let start := ofSource source
    let c := start.after calls
    let before := start.takenAll calls
    ∃ rest, source.live = before ++ rest ∧
      c.current = before.getLast? ∧ c.time = (before.getLast?.map Sample.time).getD 0 ∧
      (c.next.1 = rest.head? ∧ c.taken .next = rest.take 1) ∧
      (c.peek.1 = rest.head? ∧ c.peek.2.next.1 = rest.head? ∧ c.peek.2.current = c.current ∧
        c.peek.2.time = c.time) ∧
      (∀ mask p, c.current = some p →
        (c.wait mask).1 = rest.find? (differs mask p) ∧
          c.taken (.wait mask) = rest.take (rest.findIdx (differs mask p) + 1)) ∧
      (∀ mask p later, c.current = none → rest = p :: later →
        (c.wait mask).1 = later.find? (differs mask p) ∧
          c.taken (.wait mask) = p :: later.take (later.findIdx (differs mask p) + 1)) ∧
      (∀ mask, (c.wait mask).1 = none → c.taken (.wait mask) = rest) ∧
      (rest = [] → ∀ x, (c.call x).1 = none) ∧
      (c.isFinished ↔ none ∈ start.answers calls) ∧
      (none ∈ start.answers calls → rest = [] ∧
        ∀ other x, ({ c with source := other } : Cursor).call x =
          (none, { c with source := other })) := by
  intro start c before
  obtain ⟨rest, hlive, hstands⟩ := stands_after (stands_ofSource source) calls
  have hc : c.Stands before.getLast? rest := by rwa [Option.or_none] at hstands
  have hended : c.ended ↔ none ∈ start.answers calls := by
    rw [ended_after (stands_ofSource source) calls]
    simp [ofSource, start]
  refine ⟨rest, hlive, hc.current, by rw [time, hc.current], ?_, ?_, ?_, ?_, ?_, ?_, ?_, ?_⟩
  · obtain ⟨c', hnext, -⟩ := next_eq hc
    rw [taken, hnext]
    exact ⟨rfl, by cases rest <;> rfl⟩
  · obtain ⟨c1, hpeek, hc1⟩ := peek_eq hc
    obtain ⟨c2, hnext, -⟩ := next_eq hc1
    rw [hpeek, hnext, time, time, hc1.current, hc.current]
    exact ⟨rfl, rfl, rfl, rfl⟩
  · intro mask p hcurrent
    rw [← hc.current, hcurrent] at hc
    exact wait_of_some mask hc
  · rintro mask p later hcurrent rfl
    rw [← hc.current, hcurrent] at hc
    exact wait_of_none mask hc
  · exact fun mask => taken_of_wait_eq_none hc
  · rintro rfl x
    exact call_of_exhausted hc x
  · rw [← hended, isFinished, Bool.and_eq_true, Option.isNone_iff_eq_none]
    exact ⟨And.left, fun hend => ⟨hend, hc.settled hend⟩⟩
  · intro hseen
    have hend : c.ended := hended.mpr hseen
    refine ⟨?_, call_of_ended hc hend⟩
    rw [← hc.upcoming, upcoming, if_pos hend]

/-- The second line changes and changes back before the first one does; the source goes on
after its end. -/
example : (ofSource
  [some ⟨0, 0⟩, some ⟨5, 2⟩, some ⟨9, 0⟩, some ⟨12, 1⟩, none, some ⟨20, 0⟩]).answers
    [.peek, .wait 1, .wait 1, .next] = [some ⟨0, 0⟩, some ⟨12, 1⟩, none, none] := by
  cbv

end AtaCapture.Cursor
