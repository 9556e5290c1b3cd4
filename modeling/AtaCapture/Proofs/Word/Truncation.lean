import AtaCapture.Proofs.Word.Reading

/-!
Captures that are cut off. Of the bytes in front of a cut only whole words count, and what
these show is shown as well by the capture that goes on behind the cut; at the cut itself at
most one more sample is given, which repeats the levels of the last one. The samples of a
capture are in order. Where bytes come in two pieces, the replay goes on with the second as if
there were no cut.
-/

namespace AtaCapture

namespace Word

theorem cut_append (p q : List UInt8) :
    cut (p ++ q) = ((cut p).1 ++ (cut ((cut p).2 ++ q)).1, (cut ((cut p).2 ++ q)).2) := by
  have hsplit : p ++ q = bytes (cut p).1 ++ ((cut p).2 ++ q) := by
    rw [← List.append_assoc, bytes_cut]
  rw [hsplit, cut_bytes_append]

/-- The words of a row of bytes are those of its beginning, and then those of the bytes left
over there and the bytes behind. -/
theorem ofByteList_append (p q : List UInt8) :
    ofByteList (p ++ q) = ofByteList p ++ ofByteList ((cut p).2 ++ q) := by
  rw [ofByteList, cut_append]
  rfl

end Word

/-! ### Samples in order -/

namespace Layout

theorem time_of_mem_snapshots {l : Layout} {time : Nat} {words : List Word} {s : Sample}
    (hs : s ∈ l.snapshots time words) : time ≤ s.time ∧ s.time ≤ time + l.ticks words := by
  induction words generalizing time with
  | nil => cases hs
  | cons w words ih =>
      rw [ticks_cons]
      rcases List.mem_append.mp hs with hs | hs
      · obtain ⟨levels, -, rfl⟩ := Option.map_eq_some_iff.mp (Option.mem_toList.mp hs)
        exact ⟨Nat.le_add_right .., by dsimp only; omega⟩
      · have h := ih hs
        omega

theorem pairwise_snapshots (l : Layout) (time : Nat) (words : List Word) :
    (l.snapshots time words).Pairwise (·.time ≤ ·.time) := by
  induction words generalizing time with
  | nil => exact .nil
  | cons w words ih =>
      refine List.pairwise_append.mpr ⟨?_, ih _, ?_⟩
      · cases (l.read w).2 <;> simp
      · intro s hs t ht
        obtain ⟨levels, -, rfl⟩ := Option.map_eq_some_iff.mp (Option.mem_toList.mp hs)
        exact (time_of_mem_snapshots ht).1

end Layout

namespace Sample

theorem sublist_changes (levels : Option Nat) (samples : List Sample) :
    (changes levels samples).Sublist samples := by
  induction samples generalizing levels with
  | nil => exact .slnil
  | cons s samples ih =>
      rw [changes]
      split
      · exact (ih levels).cons s
      · exact (ih _).cons_cons s

/-- Samples that are made to last begin as they are. -/
theorem prefix_heldUntil (samples : List Sample) (stop : Nat) :
    samples <+: heldUntil samples stop := by
  rw [heldUntil]
  split
  · exact List.prefix_append ..
  · exact List.prefix_rfl

theorem pairwise_heldUntil {samples : List Sample} {stop : Nat}
    (hordered : samples.Pairwise (·.time ≤ ·.time)) (hstop : ∀ s ∈ samples, s.time ≤ stop) :
    (heldUntil samples stop).Pairwise (·.time ≤ ·.time) := by
  rw [heldUntil]
  split
  · refine List.pairwise_append.mpr ⟨hordered, List.pairwise_singleton .., ?_⟩
    intro s hs t ht
    rw [List.mem_singleton.mp ht]
    exact hstop s hs
  · exact hordered

end Sample

/-! ### Bytes in pieces -/

namespace Replay

theorem word_carry (r : Replay) (carry : List UInt8) (w : Word) :
    { r with carry }.word w = ((r.word w).1, { (r.word w).2 with carry }) := by
  simp only [word]
  split
  · rfl
  · split <;> rfl

theorem words_carry (r : Replay) (carry : List UInt8) (words : List Word) :
    { r with carry }.words words = ((r.words words).1, { (r.words words).2 with carry }) := by
  induction words generalizing r with
  | nil => rfl
  | cons w words ih => simp only [Replay.words, word_carry, ih]

theorem chunk_append (r : Replay) (p q : List UInt8) :
    r.chunk (p ++ q) =
      ((r.chunk p).1 ++ ((r.chunk p).2.chunk q).1, ((r.chunk p).2.chunk q).2) := by
  simp only [chunk, ← List.append_assoc, Word.cut_append (r.carry ++ p) q, words_append,
    words_carry]

end Replay

/-! ### Whole captures -/

namespace Replay

def samplesOfBytes (l : Layout) (bytes : List UInt8) : List Sample :=
  let (samples, r) := (start l).chunk bytes
  samples ++ r.close.1.toList

def known (l : Layout) (bytes : List UInt8) : List Sample :=
  Sample.changes none (l.snapshots 0 (Word.ofByteList bytes))

theorem samplesOfBytes_eq (l : Layout) (bytes : List UInt8) :
    samplesOfBytes l bytes =
      Sample.heldUntil (known l bytes) (l.ticks (Word.ofByteList bytes)) := by
  have hwords : samplesOfBytes l bytes = (start l).samplesOfWords (Word.ofByteList bytes) :=
    rfl
  rw [hwords, samplesOfWords_start]
  rfl

theorem pairwise_samplesOfBytes (l : Layout) (bytes : List UInt8) :
    (samplesOfBytes l bytes).Pairwise (·.time ≤ ·.time) := by
  have hsub : (known l bytes).Sublist (l.snapshots 0 (Word.ofByteList bytes)) :=
    Sample.sublist_changes ..
  rw [samplesOfBytes_eq]
  refine Sample.pairwise_heldUntil ((l.pairwise_snapshots ..).sublist hsub) fun s hs => ?_
  have htime := (Layout.time_of_mem_snapshots (hsub.subset hs)).2
  rwa [Nat.zero_add] at htime

/-- What a capture has shown up to a cut stays when it goes on. -/
theorem prefix_known (l : Layout) (p q : List UInt8) :
    known l p <+: samplesOfBytes l (p ++ q) := by
  have hknown : known l p <+: known l (p ++ q) := by
    rw [known, known, Word.ofByteList_append, Layout.snapshots_append, Sample.changes_append]
    exact List.prefix_append ..
  rw [samplesOfBytes_eq]
  exact hknown.trans (Sample.prefix_heldUntil ..)

end Replay

end AtaCapture
