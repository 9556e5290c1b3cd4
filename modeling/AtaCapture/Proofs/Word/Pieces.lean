import AtaCapture.Proofs.Word.Truncation
import AtaCapture.Word.Player

/-!
A capture in pieces. However the bytes of a capture are cut, the replay is behind each piece
where it would be if all bytes so far had come at once, with less than a word kept. A player
gives, one after the other, the samples that a replay of all its words gives, and then none.
-/

namespace AtaCapture

namespace Word

theorem length_lt_four {bytes : List UInt8}
    (h : ∀ b0 b1 b2 b3 rest, bytes ≠ b0 :: b1 :: b2 :: b3 :: rest) : bytes.length < 4 := by
  match bytes, h with
  | [], _ | [_], _ | [_, _], _ | [_, _, _], _ => simp
  | b0 :: b1 :: b2 :: b3 :: rest, h => exact absurd rfl (h b0 b1 b2 b3 rest)

theorem length_ofByteList (bytes : List UInt8) :
    (ofByteList bytes).length = bytes.length / 4 := by
  rw [ofByteList]
  fun_induction cut bytes with
  | case1 b0 b1 b2 b3 rest words left h ih =>
      rw [h] at ih
      simp only [List.length_cons] at ih ⊢
      omega
  | case2 left h =>
      have hlt : left.length < 4 := length_lt_four fun b0 b1 b2 b3 rest => h b0 b1 b2 b3 rest
      exact (Nat.div_eq_of_lt hlt).symm

end Word

/-! ### Pieces -/

namespace Replay

variable {r : Replay} {bytes : List UInt8}

theorem carry_words (r : Replay) (words : List Word) : (r.words words).2.carry = r.carry :=
  congrArg (fun moved => moved.2.carry) (words_carry r r.carry words)

theorem carry_word (r : Replay) (w : Word) : (r.word w).2.carry = r.carry :=
  congrArg (fun moved => moved.2.carry) (word_carry r r.carry w)

theorem absorbWhole_eq_chunk (h : r.carry = []) (bytes : List UInt8) :
    r.absorbWhole bytes = r.chunk bytes := by
  simp only [absorbWhole, chunk, carry_words, h, List.nil_append]

/-- Bytes that do not complete a word are kept. -/
theorem chunk_of_length_lt (h : (r.carry ++ bytes).length < 4) :
    r.chunk bytes = ([], { r with carry := r.carry ++ bytes }) := by
  rw [chunk, Word.cut_of_length_lt h]
  rfl

theorem chunk_of_complete {b0 b1 b2 b3 : UInt8} (h : r.carry ++ bytes = [b0, b1, b2, b3]) :
    r.chunk bytes = (({ r with carry := [] }.word (Word.ofBytes b0 b1 b2 b3)).1.toList,
      ({ r with carry := [] }.word (Word.ofBytes b0 b1 b2 b3)).2) := by
  rw [chunk, h, word_carry]
  simp [Word.cut, words]

theorem length_carry_chunk (r : Replay) (bytes : List UInt8) :
    (r.chunk bytes).2.carry.length < 4 :=
  Word.length_cut_left_lt _

/-- Taking first what is missing of a word makes no difference. -/
theorem absorb_eq_chunk (h : r.carry.length < 4) (bytes : List UInt8) :
    r.absorb bytes = r.chunk bytes := by
  rw [absorb]
  split
  · exact absorbWhole_eq_chunk ‹_› bytes
  · have hsize : (r.carry ++ bytes.take (4 - r.carry.length)).length =
        r.carry.length + min (4 - r.carry.length) bytes.length := by
      rw [List.length_append, List.length_take]
    dsimp only
    split
    · rename_i b0 b1 b2 b3 rest hword
      -- No more is taken than what was missing, so the word is all there is.
      have hrest : rest = [] := by
        refine List.length_eq_zero_iff.mp ?_
        rw [hword] at hsize
        simp only [List.length_cons] at hsize
        omega
      have hnothing : ({ r with carry := [] }.word (Word.ofBytes b0 b1 b2 b3)).2.carry = [] :=
        carry_word ..
      rw [hrest] at hword
      conv => rhs; rw [← List.take_append_drop (4 - r.carry.length) bytes]
      rw [chunk_append, chunk_of_complete hword, absorbWhole_eq_chunk hnothing]
    · rename_i hpart
      -- The piece is too short for what is missing, so all of it is taken.
      have hlt : (r.carry ++ bytes.take (4 - r.carry.length)).length < 4 :=
        Word.length_lt_four hpart
      have hall : bytes.take (4 - r.carry.length) = bytes := by
        refine List.take_of_length_le ?_
        omega
      rw [hall] at hlt ⊢
      rw [chunk_of_length_lt hlt]

theorem absorbAll_eq_chunk (h : r.carry.length < 4) (pieces : List (List UInt8)) :
    r.absorbAll pieces = r.chunk pieces.flatten := by
  induction pieces generalizing r with
  | nil =>
      rw [List.flatten_nil, chunk_of_length_lt (by rwa [List.append_nil]), List.append_nil]
      rfl
  | cons bytes rest ih =>
      rw [absorbAll, absorb_eq_chunk h, List.flatten_cons, chunk_append]
      dsimp only
      rw [ih (length_carry_chunk r bytes)]

theorem count_chunk_start (l : Layout) (bytes : List UInt8) :
    ((start l).chunk bytes).2.count = bytes.length / 4 := by
  rw [← Word.length_ofByteList]
  exact (count_words (start l) _).trans (Nat.zero_add _)

theorem time_chunk_start (l : Layout) (bytes : List UInt8) :
    ((start l).chunk bytes).2.time = l.ticks (Word.ofByteList bytes) :=
  ((start l).moved_words _).time.trans (Nat.zero_add _)

/-! ### Samples one at a time -/

theorem samplesOfWords_cons (r : Replay) (w : Word) (rest : List Word) :
    r.samplesOfWords (w :: rest) = (r.word w).1.toList ++
      (r.word w).2.samplesOfWords rest := by
  simp only [samplesOfWords, words, List.append_assoc]

/-- The first sample of some words is the first one that is found, or that of the end. -/
theorem samplesOfWords_seek (r : Replay) (words : List Word) :
    r.samplesOfWords words =
      match r.seek words with
      | (some s, r, rest) => s :: r.samplesOfWords rest
      | (none, r, _) => r.close.1.toList := by
  induction words generalizing r with
  | nil => rfl
  | cons w rest ih =>
      rw [samplesOfWords_cons, seek]
      rcases r.word w with ⟨_ | s, r⟩
      · exact ih r
      · rfl

end Replay

namespace Player

variable {p : Player}

def remaining (p : Player) : List Sample :=
  if p.ended then [] else p.replay.samplesOfWords p.words

def after (p : Player) : Nat → Player
  | 0 => p
  | n + 1 => p.next.2.after n

theorem next_eq (p : Player) :
    p.next.1 = p.remaining.head? ∧ p.next.2.remaining = p.remaining.tail := by
  rw [next, remaining]
  cases hended : p.ended with
  | true => exact ⟨rfl, by simp [remaining, hended]⟩
  | false =>
      simp only [Bool.false_eq_true, if_false]
      rw [Replay.samplesOfWords_seek]
      rcases p.replay.seek p.words with ⟨_ | s, r, rest⟩
      · dsimp only
        cases r.close.1 <;> exact ⟨rfl, rfl⟩
      · exact ⟨rfl, rfl⟩

theorem next_after (p : Player) (n : Nat) : (p.after n).next.1 = p.remaining[n]? := by
  induction n generalizing p with
  | zero => rw [after, p.next_eq.1, List.head?_eq_getElem?]
  | succ n ih => rw [after, ih, p.next_eq.2, List.getElem?_tail]

end Player

/-! ### Whole captures -/

namespace Replay

/-- However the bytes of a capture come in pieces, empty ones and parts of words among them,
they leave a replay as all of them at once do: it has counted the whole words, and its clock
shows how long these last. With the end of the capture they give the samples of those words,
which are also those that a player gives one after the other, and none behind them. In the
standard layout they are the decoded capture. -/
theorem samples_of_pieces (l : Layout) (pieces : List (List UInt8)) :
    let bytes := pieces.flatten
    let words := Word.ofByteList bytes
    let samples := (start l).samplesOfWords words
    let inPieces := (start l).absorbAll pieces
    let atOnce := (start l).absorb bytes
    inPieces = atOnce ∧
      inPieces.2.count = bytes.length / 4 ∧
      inPieces.2.time = l.ticks words ∧
      inPieces.1 ++ inPieces.2.close.1.toList = samples ∧
      atOnce.1 ++ atOnce.2.close.1.toList = samples ∧
      (∀ n, ((Player.start l words).after n).next.1 = samples[n]?) ∧
      decode bytes = (start .standard).samplesOfWords words := by
  intro bytes words samples inPieces atOnce
  have hempty : (start l).carry.length < 4 := by
    show 0 < 4
    omega
  have hpieces : inPieces = (start l).chunk bytes := absorbAll_eq_chunk hempty pieces
  have honce : atOnce = (start l).chunk bytes := absorb_eq_chunk hempty bytes
  rw [hpieces, honce]
  refine ⟨rfl, count_chunk_start l bytes, time_chunk_start l bytes, rfl, rfl, fun n => ?_, rfl⟩
  exact (Player.start l words).next_after n

end Replay

end AtaCapture
