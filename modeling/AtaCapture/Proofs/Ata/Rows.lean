import AtaCapture.Ata.Activity
import Mathlib.Data.List.SplitBy

/-!
Rows of accesses. A row is as many successive accesses as have one thing in common, their key.
It lasts until the next row begins, and the last row until the end of the capture. A machine
that keeps the row under way, counts its accesses and reports it with the first access that is
not of the row, reports just these spans; accesses that it does not heed leave the row alone.
-/

namespace AtaCapture.Ata

/-! ### Rows -/

section

variable {κ : Type}

/-- The longest rows of successive accesses with the same key. -/
def rowsBy [DecidableEq κ] (key : Access → Option κ) (xs : List Access) : List (List Access) :=
  xs.splitBy fun x y => key x == key y

def startOf (stop : Nat) (xs : List Access) : Nat := (xs.head?.map (·.start)).getD stop

/-- What is reported of a row that lasts until `stop`, if its accesses have a key. -/
def rowSpan (key : Access → Option κ) (content : κ → Nat → Content) (stop : Nat) :
    List Access → Option Event
  | [] => none
  | x :: row =>
    (key x).map fun k => { start := x.start, stop, content := content k (row.length + 1) }

/-- Every row lasts until the next one begins, and the last one until `stop`. -/
def spansOfRows (key : Access → Option κ) (content : κ → Nat → Content) (stop : Nat) :
    List (List Access) → List Event
  | [] => []
  | row :: later =>
    (rowSpan key content (startOf stop later.flatten) row).toList ++
      spansOfRows key content stop later

def rowSpans [DecidableEq κ] (key : Access → Option κ) (content : κ → Nat → Content)
    (stop : Nat) (xs : List Access) : List Event :=
  spansOfRows key content stop (rowsBy key xs)

/-- Rows of one key each, neighbours with different ones. -/
structure InRows (key : Access → Option κ) (rows : List (List Access)) : Prop where
  filled : [] ∉ rows
  same : ∀ row ∈ rows, ∀ x ∈ row, ∀ y ∈ row, key x = key y
  turns : rows.IsChain fun a b => ∀ x ∈ a, ∀ y ∈ b, key x ≠ key y

variable {key : Access → Option κ} {content : κ → Nat → Content} {stop : Nat} {x : Access}
  {row : List Access} {later : List (List Access)}

theorem key_eq_of_isChain [DecidableEq κ] (h : row.IsChain fun x y => key x == key y) :
    ∀ x ∈ row, ∀ y ∈ row, key x = key y := by
  induction row with
  | nil => simp
  | cons x row ih =>
      have hfirst : ∀ y ∈ row, key x = key y := by
        intro y hy
        obtain ⟨z, row, rfl⟩ := List.exists_cons_of_ne_nil (List.ne_nil_of_mem hy)
        obtain ⟨hxz, hrow⟩ := List.isChain_cons_cons.mp h
        exact (beq_iff_eq.mp hxz).trans (ih hrow z (List.mem_cons_self ..) y hy)
      have hrow := ih h.tail
      simp only [List.forall_mem_cons]
      exact ⟨⟨trivial, hfirst⟩, fun y hy => ⟨(hfirst y hy).symm, hrow y hy⟩⟩

theorem flatten_rowsBy [DecidableEq κ] (key : Access → Option κ) (xs : List Access) :
    (rowsBy key xs).flatten = xs :=
  List.flatten_splitBy ..

theorem inRows_rowsBy [DecidableEq κ] (key : Access → Option κ) (xs : List Access) :
    InRows key (rowsBy key xs) := by
  obtain ⟨-, hfilled, hsame, hturns⟩ := List.splitBy_eq_iff.mp (rfl : rowsBy key xs = _)
  have hkeys (row) (hrow : row ∈ rowsBy key xs) := key_eq_of_isChain (hsame row hrow)
  refine ⟨hfilled, hkeys, ?_⟩
  refine List.IsChain.imp_of_mem_imp ?_ hturns
  intro a b ha hb ⟨hane, hbne, hdiffers⟩ x hx y hy heq
  refine beq_eq_false_iff_ne.mp hdiffers ?_
  calc key (a.getLast hane) = key x := hkeys a ha _ (List.getLast_mem hane) x hx
    _ = key y := heq
    _ = key (b.head hbne) := hkeys b hb y hy _ (List.head_mem hbne)

theorem InRows.tail (h : InRows key (row :: later)) : InRows key later where
  filled hnil := h.filled (List.mem_cons_of_mem _ hnil)
  same a ha := h.same a (List.mem_cons_of_mem _ ha)
  turns := h.turns.tail

theorem InRows.exists_cons (h : InRows key (row :: later)) : ∃ x rest, row = x :: rest :=
  List.exists_cons_of_ne_nil fun hnil => h.filled (hnil ▸ List.mem_cons_self ..)

theorem InRows.key_ne (h : InRows key (row :: later)) {y : Access} (hx : x ∈ row)
    (hy : y ∈ later.flatten.head?) : key x ≠ key y := by
  cases later with
  | nil => cases hy
  | cons next later =>
      obtain ⟨z, next, rfl⟩ := h.tail.exists_cons
      obtain rfl := Option.some.inj hy
      exact (List.isChain_cons_cons.mp h.turns).1 x hx z (List.mem_cons_self ..)

/-- Events without a pause between two times, each of which begins where the one in front of it
ends. -/
def Tile (lo hi : Nat) : List Event → Prop
  | [] => lo = hi
  | e :: rest => e.start = lo ∧ Tile e.stop hi rest

/-- Where every access has a key, the spans fill the time from the first access on. -/
theorem tile_spansOfRows (key : Access → Option κ) (content : κ → Nat → Content) (stop : Nat)
    {rows : List (List Access)} (hrows : InRows key rows)
    (hkeyed : ∀ x ∈ rows.flatten, (key x).isSome) :
    Tile (startOf stop rows.flatten) stop (spansOfRows key content stop rows) := by
  induction rows with
  | nil => rfl
  | cons row later ih =>
      obtain ⟨x, row, rfl⟩ := hrows.exists_cons
      rw [List.flatten_cons, List.cons_append] at hkeyed ⊢
      obtain ⟨k, hk⟩ := Option.isSome_iff_exists.mp (hkeyed x (List.mem_cons_self ..))
      rw [spansOfRows, rowSpan, hk]
      refine ⟨rfl, ih hrows.tail fun y hy => hkeyed y ?_⟩
      exact List.mem_cons_of_mem _ (List.mem_append_right _ hy)

/-- Where every access has a key, successive spans are of different keys. -/
theorem isChain_spansOfRows {rows : List (List Access)} (hrows : InRows key rows)
    (hkeyed : ∀ x ∈ rows.flatten, (key x).isSome) :
    (spansOfRows key content stop rows).IsChain fun e f => ∃ x y m n, key x ≠ key y ∧
      (key x).map (content · m) = some e.content ∧
      (key y).map (content · n) = some f.content := by
  induction rows with
  | nil => exact .nil
  | cons row later ih =>
      have hlater := ih hrows.tail fun y hy => hkeyed y (List.mem_append_right _ hy)
      obtain ⟨x, row, rfl⟩ := hrows.exists_cons
      obtain ⟨j, hj⟩ := Option.isSome_iff_exists.mp (hkeyed x (List.mem_cons_self ..))
      cases later with
      | nil =>
          rw [spansOfRows, rowSpan, hj]
          exact .singleton _
      | cons next later =>
          obtain ⟨y, next, rfl⟩ := hrows.tail.exists_cons
          have hne : key x ≠ key y := hrows.key_ne (List.mem_cons_self ..) rfl
          obtain ⟨k, hk⟩ := Option.isSome_iff_exists.mp
            (hkeyed y (List.mem_append_right _ (List.mem_cons_self ..)))
          rw [spansOfRows, rowSpan, hk] at hlater
          rw [spansOfRows, rowSpan, hj, spansOfRows, rowSpan, hk]
          refine List.isChain_cons_cons.mpr
            ⟨⟨x, y, row.length + 1, next.length + 1, hne, ?_, ?_⟩, hlater⟩
          · rw [hj]; rfl
          · rw [hk]; rfl

end

/-! ### A part that follows rows -/

/-- The events of a machine that is fed accesses one by one, with the report of what is under
way at `stop`. -/
def feedUntil {σ : Type} (step : Option σ → Access → List Event × Option σ)
    (report : Nat → σ → Event) (stop : Nat) (s : Option σ) : List Access → List Event
  | [] => (s.map (report stop)).toList
  | x :: xs => (step s x).1 ++ feedUntil step report stop (step s x).2 xs

structure OpenRow (κ : Type) where
  start : Nat
  key : κ
  count : Nat

section

variable {κ σ : Type}

def Access.opens (key : Access → Option κ) (x : Access) : Option (OpenRow κ) :=
  (key x).map fun k => { start := x.start, key := k, count := 1 }

def OpenRow.event (content : κ → Nat → Content) (stop : Nat) (r : OpenRow κ) : Event :=
  { start := r.start, stop, content := content r.key r.count }

/-- The machine has under way the row of the accesses that it heeds, as `under` shows it. -/
structure FollowsRows (step : Option σ → Access → List Event × Option σ)
    (report : Nat → σ → Event)
    (heeds : Access → Bool) (key : Access → Option κ) (content : κ → Nat → Content)
    (under : OpenRow κ → σ) : Prop where
  ignores : ∀ s x, heeds x = false → step s x = ([], s)
  begins : ∀ x, heeds x → step none x = ([], (x.opens key).map under)
  goesOn : ∀ r x, heeds x → key x = some r.key →
    step (some (under r)) x = ([], some (under { r with count := r.count + 1 }))
  breaks : ∀ r x, heeds x → key x ≠ some r.key →
    step (some (under r)) x = ([report x.start (under r)], (x.opens key).map under)
  reports : ∀ stop r, report stop (under r) = r.event content stop

namespace FollowsRows

variable {step : Option σ → Access → List Event × Option σ} {report : Nat → σ → Event}
  {heeds : Access → Bool} {key : Access → Option κ} {content : κ → Nat → Content}
  {under : OpenRow κ → σ} {stop : Nat}

theorem feedUntil_filter (h : FollowsRows step report heeds key content under) (s : Option σ)
    (xs : List Access) :
    feedUntil step report stop s xs = feedUntil step report stop s (xs.filter heeds) := by
  induction xs generalizing s with
  | nil => rfl
  | cons x xs ih =>
      cases hx : heeds x with
      | true => rw [List.filter_cons_of_pos hx, feedUntil, feedUntil, ih]
      | false =>
          rw [List.filter_cons_of_neg (Bool.not_eq_true _ ▸ hx), feedUntil, h.ignores s x hx]
          exact ih s

theorem feedUntil_unkeyed (h : FollowsRows step report heeds key content under)
    {row : List Access} (hheeds : ∀ x ∈ row, heeds x) (hkey : ∀ x ∈ row, key x = none)
    (rest : List Access) :
    feedUntil step report stop none (row ++ rest) = feedUntil step report stop none rest := by
  induction row with
  | nil => rfl
  | cons x row ih =>
      rw [List.forall_mem_cons] at hheeds hkey
      rw [List.cons_append, feedUntil, h.begins x hheeds.1, Access.opens, hkey.1]
      exact ih hheeds.2 hkey.2

/-- A row goes on without a report, and its accesses are counted. -/
theorem feedUntil_row (h : FollowsRows step report heeds key content under) (r : OpenRow κ)
    {row : List Access} (hheeds : ∀ x ∈ row, heeds x) (hkey : ∀ x ∈ row, key x = some r.key)
    (rest : List Access) :
    feedUntil step report stop (some (under r)) (row ++ rest) =
      feedUntil step report stop (some (under { r with count := r.count + row.length }))
        rest := by
  induction row generalizing r with
  | nil => rfl
  | cons x row ih =>
      rw [List.forall_mem_cons] at hheeds hkey
      rw [List.cons_append, feedUntil, h.goesOn r x hheeds.1 hkey.1]
      refine (ih { r with count := r.count + 1 } hheeds.2 hkey.2).trans ?_
      rw [List.length_cons, Nat.add_assoc, Nat.add_comm 1]

theorem step_of_ne (h : FollowsRows step report heeds key content under)
    {r? : Option (OpenRow κ)}
    {x : Access} (hheeds : heeds x) (hr : ∀ r ∈ r?, key x ≠ some r.key) :
    step (r?.map under) x =
      ((r?.map (·.event content x.start)).toList, (x.opens key).map under) := by
  cases r? with
  | none => exact h.begins x hheeds
  | some r =>
      rw [Option.map_some, h.breaks r x hheeds (hr r rfl), h.reports]
      rfl

/-- Row by row: the one under way ends where the next one begins, and every other one is
reported as its span says. -/
theorem feedUntil_flatten (h : FollowsRows step report heeds key content under) (stop : Nat)
    {rows : List (List Access)} (hrows : InRows key rows)
    (hheeds : ∀ x ∈ rows.flatten, heeds x)
    (r? : Option (OpenRow κ)) (hr : ∀ r ∈ r?, ∀ x ∈ rows.flatten.head?, key x ≠ some r.key) :
    feedUntil step report stop (r?.map under) rows.flatten =
      (r?.map (·.event content (startOf stop rows.flatten))).toList ++
        spansOfRows key content stop rows := by
  induction rows generalizing r? with
  | nil =>
      simp only [List.flatten_nil, feedUntil, spansOfRows, List.append_nil, Option.map_map,
        Function.comp_def, h.reports, startOf, List.head?_nil, Option.map_none,
        Option.getD_none]
  | cons row later ih =>
      obtain ⟨x, row, rfl⟩ := hrows.exists_cons
      rw [List.flatten_cons, List.cons_append] at hheeds hr ⊢
      rw [List.forall_mem_cons, List.forall_mem_append] at hheeds
      obtain ⟨hx, hrow, hlater⟩ := hheeds
      have hsame : ∀ y ∈ row, key y = key x := fun y hy =>
        hrows.same _ (List.mem_cons_self ..) y (List.mem_cons_of_mem _ hy) x
          (List.mem_cons_self ..)
      rw [feedUntil, h.step_of_ne hx fun r hmem => hr r hmem x rfl, spansOfRows, rowSpan]
      refine congrArg₂ (· ++ ·) rfl ?_
      cases hkey : key x with
      | none =>
          rw [Access.opens, hkey]
          refine (h.feedUntil_unkeyed hrow (fun y hy => (hsame y hy).trans hkey) _).trans ?_
          exact ih hrows.tail hlater none (by simp)
      | some k =>
          -- The row goes on to its last access, and the access behind it ends it.
          have hnext : ∀ y ∈ later.flatten.head?, key y ≠ some k := fun y hy heq =>
            hrows.key_ne (List.mem_cons_self ..) hy (hkey.trans heq.symm)
          rw [Access.opens, hkey]
          refine (h.feedUntil_row _ hrow (fun y hy => (hsame y hy).trans hkey) _).trans ?_
          rw [Nat.add_comm 1]
          refine ih hrows.tail hlater (some ⟨x.start, k, row.length + 1⟩) ?_
          exact fun r hmem => Option.some.inj hmem ▸ hnext

/-- A part that starts with nothing under way reports the spans of the rows that it heeds. -/
theorem feedUntil_eq_rowSpans [DecidableEq κ]
    (h : FollowsRows step report heeds key content under) (xs : List Access) :
    feedUntil step report stop none xs = rowSpans key content stop (xs.filter heeds) := by
  have hheeds : ∀ x ∈ (rowsBy key (xs.filter heeds)).flatten, heeds x := by
    rw [flatten_rowsBy]
    exact fun x hx => (List.mem_filter.mp hx).2
  have hflatten :=
    h.feedUntil_flatten stop (inRows_rowsBy key (xs.filter heeds)) hheeds none (by simp)
  rw [flatten_rowsBy] at hflatten
  rw [h.feedUntil_filter]
  exact hflatten

end FollowsRows

end

end AtaCapture.Ata
