import AtaCapture.Instances

/-!
Capture words and the bytes that hold them, the lowest byte first. A run of bytes is cut into
words of four; what is left over at its end is less than a word.
-/

namespace AtaCapture

abbrev Word := BitVec 32

namespace Word

def ofBytes (b0 b1 b2 b3 : UInt8) : Word :=
  BitVec.ofNat 32 (b0.toNat + 2 ^ 8 * b1.toNat + 2 ^ 16 * b2.toNat + 2 ^ 24 * b3.toNat)

def toBytes (w : Word) : List UInt8 :=
  [(w.toNat % 2 ^ 8).toUInt8, (w.toNat / 2 ^ 8 % 2 ^ 8).toUInt8,
    (w.toNat / 2 ^ 16 % 2 ^ 8).toUInt8, (w.toNat / 2 ^ 24).toUInt8]

def bytes (words : List Word) : List UInt8 := words.flatMap toBytes

/-- The whole words at the head of some bytes, and the bytes that are left. -/
def cut : List UInt8 → List Word × List UInt8
  | b0 :: b1 :: b2 :: b3 :: rest =>
    let (words, left) := cut rest
    (ofBytes b0 b1 b2 b3 :: words, left)
  | left => ([], left)

/-- The whole words of some bytes; an incomplete last word is dropped. -/
def ofByteList (bytes : List UInt8) : List Word := (cut bytes).1

@[simp] theorem cut_cons (b0 b1 b2 b3 : UInt8) (rest : List UInt8) :
    cut (b0 :: b1 :: b2 :: b3 :: rest) =
      (ofBytes b0 b1 b2 b3 :: (cut rest).1, (cut rest).2) := rfl

theorem cut_of_length_lt {bytes : List UInt8} (h : bytes.length < 4) :
    cut bytes = ([], bytes) := by
  match bytes with
  | [] | [_] | [_, _] | [_, _, _] => rfl
  | _ :: _ :: _ :: _ :: _ => simp at h; omega

theorem length_cut_left_lt (bytes : List UInt8) : (cut bytes).2.length < 4 := by
  fun_induction cut bytes with
  | case1 b0 b1 b2 b3 rest words left h ih => simpa [h] using ih
  | case2 left h =>
    match left, h with
    | [], _ | [_], _ | [_, _], _ | [_, _, _], _ => simp
    | b0 :: b1 :: b2 :: b3 :: rest, h => exact absurd rfl (h b0 b1 b2 b3 rest)

/-! ### Nothing is lost between words and bytes -/

theorem ofBytes_toBytes (w : Word) :
    ofBytes (w.toNat % 2 ^ 8).toUInt8 (w.toNat / 2 ^ 8 % 2 ^ 8).toUInt8
      (w.toNat / 2 ^ 16 % 2 ^ 8).toUInt8 (w.toNat / 2 ^ 24).toUInt8 = w := by
  apply BitVec.eq_of_toNat_eq
  have hw := w.isLt
  simp only [ofBytes, BitVec.toNat_ofNat, Nat.toUInt8_eq, UInt8.toNat_ofNat']
  omega

theorem toBytes_ofBytes (b0 b1 b2 b3 : UInt8) :
    toBytes (ofBytes b0 b1 b2 b3) = [b0, b1, b2, b3] := by
  have h0 := b0.toNat_lt
  have h1 := b1.toNat_lt
  have h2 := b2.toNat_lt
  have h3 := b3.toNat_lt
  simp only [toBytes, ofBytes, BitVec.toNat_ofNat, List.cons.injEq, and_true,
    ← UInt8.toNat_inj, Nat.toUInt8_eq, UInt8.toNat_ofNat']
  omega

/-- Written words are cut off again whole. -/
theorem cut_bytes_append (words : List Word) (rest : List UInt8) :
    cut (bytes words ++ rest) = (words ++ (cut rest).1, (cut rest).2) := by
  induction words with
  | nil => rfl
  | cons w words ih =>
    have h : bytes (w :: words) ++ rest = toBytes w ++ (bytes words ++ rest) := by simp [bytes]
    rw [h]
    simp only [toBytes, List.cons_append, List.nil_append, cut_cons, ih, ofBytes_toBytes]

/-- The words and what is left make up the bytes. -/
theorem bytes_cut (b : List UInt8) : bytes (cut b).1 ++ (cut b).2 = b := by
  fun_induction cut b with
  | case1 b0 b1 b2 b3 rest words left h ih =>
    simp only [h] at ih
    simp only [bytes, List.flatMap_cons, toBytes_ofBytes, List.cons_append, List.nil_append]
        at ih ⊢
    rw [ih]
  | case2 left h => rfl

end Word

end AtaCapture
