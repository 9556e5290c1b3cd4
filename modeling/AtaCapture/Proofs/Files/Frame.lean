import AtaCapture.Files.Tree
import Mathlib

/-!
What making a file changes. A path leads only through directories that are there already, so a
file that is made changes what stands at its own place and nothing else: no directory comes or
goes, and every path leads where it led before.
-/

namespace AtaCapture.Tree

variable {t before after last : Tree} {place other : List String} {path : String}
  {bytes : ByteArray} {places : List String → Prop}

/-! ### Walking -/

/-- Every place on the way to this one leads to something. -/
def Grounded (t : Tree) (place : List String) : Prop :=
  ∀ other, other <+: place → other ≠ place → (t.at? other).isSome

theorem isSome_at?_of_isAbove (h : t.isAbove place) : (t.at? place).isSome := by
  rw [at?]
  split
  · rfl
  · rw [if_pos h]
    rfl

theorem isSome_at?_of_isDirectory (h : t.isDirectory place) : (t.at? place).isSome := by
  rw [isDirectory, decide_eq_true_iff] at h
  rw [h]
  rfl

theorem grounded_root (t : Tree) :
    t.Grounded [] := fun _ hother hne => absurd (List.prefix_nil.mp hother) hne

theorem grounded_here (t : Tree) : t.Grounded t.here := fun other hother _ => by
  refine isSome_at?_of_isAbove ?_
  rw [isAbove, List.isPrefixOf_iff_prefix.mpr hother, Bool.true_or]

theorem Grounded.follow (h : t.Grounded place) (hdirectory : t.isDirectory place)
    (part : List Char) : t.Grounded (follow place part) := by
  rw [Tree.follow]
  split
  · exact h
  · split
    · intro other hother hne
      refine h other (hother.trans (List.dropLast_prefix place)) fun heq => ?_
      obtain rfl | ⟨q, name, rfl⟩ := List.eq_nil_or_concat' place
      · exact hne heq
      · have := hother.length_le
        rw [heq, List.dropLast_concat, List.length_append, List.length_singleton] at this
        omega
    · intro other hother hne
      rcases List.prefix_concat_iff.mp hother with heq | hplace
      · exact absurd heq hne
      · by_cases hsame : other = place
        · exact hsame ▸ isSome_at?_of_isDirectory hdirectory
        · exact h other hplace hsame

theorem Grounded.walk {parts : List (List Char)} (h : t.Grounded place)
    (hwalk : t.walk place parts = some other) : t.Grounded other := by
  induction parts generalizing place with
  | nil => exact Option.some.inj hwalk ▸ h
  | cons part parts ih =>
      rw [Tree.walk] at hwalk
      split at hwalk
      · exact ih (h.follow ‹_› part) hwalk
      · cases hwalk

/-- What a path leads to hangs together with the rest of the tree. -/
theorem grounded_of_place? (h : t.place? path = some place) : t.Grounded place := by
  rw [place?] at h
  split at h
  · cases h
  · refine Grounded.walk ?_ h
    rw [parts]
    split
    · exact t.grounded_root
    · exact t.grounded_here

/-! ### Putting a file at a place -/

theorem isAbove_put :
    (t.put place bytes).isAbove other = (t.isAbove other || other.isPrefixOf place) := by
  rw [isAbove, isAbove, put, Bool.eq_iff_iff]
  simp only [List.any_append, List.any_filter, List.any_cons, List.any_nil, Bool.or_false,
    Bool.or_eq_true, List.any_eq_true, Bool.and_eq_true, decide_eq_true_eq]
  constructor
  · rintro (hhere | ⟨entry, hentry, -, habove⟩ | hplace)
    · exact .inl (.inl hhere)
    · exact .inl (.inr ⟨entry, hentry, habove⟩)
    · exact .inr hplace
  · rintro ((hhere | ⟨entry, hentry, habove⟩) | hplace)
    · exact .inl hhere
    · by_cases hsame : entry.1 = place
      · exact .inr (.inr (hsame ▸ habove))
      · exact .inr (.inl ⟨entry, hentry, hsame, habove⟩)
    · exact .inr (.inr hplace)

theorem at?_put_self : (t.put place bytes).at? place = some (.file bytes) := by
  have hold :
      ((t.entries.filter fun entry => entry.1 ≠ place).find? fun entry => entry.1 = place)
      = none := by
    rw [List.find?_eq_none]
    intro entry hentry
    simpa using (List.mem_filter.mp hentry).2
  rw [at?, put, List.find?_append, hold, Option.none_or]
  simp

theorem at?_put_of_ne (h : t.Grounded place) (hne : other ≠ place) :
    (t.put place bytes).at? other = t.at? other := by
  have hold : ((t.put place bytes).entries.find? fun entry => entry.1 = other)
      = t.entries.find? fun entry => entry.1 = other := by
    rw [put, List.find?_append, List.find?_filter]
    have hnew : ([(place, Entry.file bytes)].find? fun entry => entry.1 = other) = none := by
      simp [Ne.symm hne]
    rw [hnew, Option.or_none]
    congr 1
    funext entry
    by_cases hentry : entry.1 = other
    · simp [hentry, hne]
    · simp [hentry]
  rw [at?, hold, at?, isAbove_put]
  split
  · rfl
  · rename_i hnone
    by_cases hprefix : other.isPrefixOf place
    · have hsome := h other (List.isPrefixOf_iff_prefix.mp hprefix) hne
      rw [at?, hnone] at hsome
      dsimp only at hsome
      split at hsome
      · rename_i habove
        rw [habove, Bool.true_or]
      · cases hsome
    · rw [Bool.eq_false_iff.mpr hprefix, Bool.or_false]

/-! ### Trees that differ in some places -/

/-- A tree differs from another at most in these places, and it has the same directories. -/
structure Writes (before after : Tree) (places : List String → Prop) : Prop where
  here : after.here = before.here
  at? : ∀ place, ¬ places place → after.at? place = before.at? place
  isDirectory : ∀ place, after.isDirectory place = before.isDirectory place

theorem Writes.refl (t : Tree) (places : List String → Prop) : Writes t t places :=
  ⟨rfl, fun _ _ => rfl, fun _ => rfl⟩

theorem Writes.trans (h : Writes before after places) (hlast : Writes after last places) :
    Writes before last places where
  here := hlast.here.trans h.here
  at? place hplace := (hlast.at? place hplace).trans (h.at? place hplace)
  isDirectory place := (hlast.isDirectory place).trans (h.isDirectory place)

theorem Writes.mono {more : List String → Prop} (h : Writes before after places)
    (hmore : ∀ place, places place → more place) : Writes before after more :=
  { h with at? := fun place hplace => h.at? place fun hp => hplace (hmore place hp) }

theorem Writes.walk (h : Writes before after places) (place : List String)
    (parts : List (List Char)) : after.walk place parts = before.walk place parts := by
  induction parts generalizing place with
  | nil => rfl
  | cons part parts ih => rw [Tree.walk, Tree.walk, h.isDirectory, ih]

theorem Writes.place? (h : Writes before after places) (path : String) :
    after.place? path = before.place? path := by
  have hparts : after.parts path = before.parts path := by
    rw [parts, parts, h.here]
  rw [Tree.place?, Tree.place?, hparts, h.walk]

theorem Writes.find? (h : Writes before after places)
    (hplace : before.place? path = some place)
    (hother : ¬ places place) : after.find? path = before.find? path := by
  rw [Tree.find?, Tree.find?, h.place?, hplace, Option.bind_some, Option.bind_some,
    h.at? place hother]

theorem create_eq_some : t.create path bytes = some after ↔
    ∃ place, t.place? path = some place ∧ t.isDirectory place = false ∧
      (place.getLastD "").utf8ByteSize ≤ nameLimit ∧ after = t.put place bytes := by
  rw [create]
  cases t.place? path with
  | none => simp
  | some place =>
      dsimp only
      split
      · simp_all
      · split
        · simp only [reduceCtorEq, Option.some.injEq, exists_eq_left', false_iff, not_and]
          intro _ hsize
          omega
        · rename_i hfile hsize
          constructor
          · intro h
            exact ⟨place, rfl, Bool.eq_false_iff.mpr hfile, Nat.not_lt.mp hsize,
              (Option.some.inj h).symm⟩
          · rintro ⟨_, ⟨⟩, -, -, rfl⟩
            rfl

/-- A file that is made stands where its path leads, and is all that is new. -/
theorem writes_of_create (h : t.create path bytes = some after) :
    ∃ place, t.place? path = some place ∧ t.isDirectory place = false ∧
      after.at? place = some (.file bytes) ∧ Writes t after (· = place) := by
  obtain ⟨place, hplace, hfile, -, rfl⟩ := create_eq_some.mp h
  have hat (other : List String) (hother : other ≠ place) :
      (t.put place bytes).at? other = t.at? other :=
    at?_put_of_ne (grounded_of_place? hplace) hother
  refine ⟨place, hplace, hfile, at?_put_self, rfl, hat, fun other => ?_⟩
  by_cases hother : other = place
  · subst hother
    rw [hfile, isDirectory, at?_put_self]
    rfl
  · rw [isDirectory, hat other hother, isDirectory]

/-- A file can be made where it could be made before, with any content. -/
theorem Writes.create (h : Writes before after places)
    (hmade : (before.create path bytes).isSome)
    (content : ByteArray) : ∃ later, after.create path content = some later := by
  obtain ⟨made, hmade⟩ := Option.isSome_iff_exists.mp hmade
  obtain ⟨place, hplace, hfile, hsize, -⟩ := create_eq_some.mp hmade
  exact ⟨_,
    create_eq_some.mpr ⟨place, (h.place? path).trans hplace, (h.isDirectory place).trans hfile,
    hsize, rfl⟩⟩

/-- A file that is made in one of the places is a change in one of the places. -/
theorem Writes.of_create (h : Writes before t places)
    (hmade : t.create path bytes = some after)
    (hplaces : ∀ place, before.place? path = some place → before.isDirectory place = false →
      places place) :
    Writes before after places := by
  obtain ⟨place, hplace, hfile, -, hwrites⟩ := writes_of_create hmade
  rw [h.place?] at hplace
  rw [h.isDirectory] at hfile
  exact h.trans (hwrites.mono fun other hother => hother ▸ hplaces place hplace hfile)

theorem Writes.of_create_getD (h : Writes before t places) (bytes : ByteArray)
    (hplaces : ∀ place, before.place? path = some place → before.isDirectory place = false →
      places place) :
    Writes before ((t.create path bytes).getD t) places := by
  cases hmade : t.create path bytes with
  | none => exact h
  | some made => exact h.of_create hmade hplaces

theorem find?_eq_some {entry : Entry} :
    t.find? path = some entry ↔ ∃ place, t.place? path = some place ∧
    t.at? place = some entry := by
  rw [find?, Option.bind_eq_some_iff]

theorem isDirectory_of_file (h : t.at? place = some (.file bytes)) :
    t.isDirectory place = false := by
  rw [isDirectory, h]
  rfl

end AtaCapture.Tree
