import AtaCapture.Output
import Mathlib

/-!
Outputs that take a text, and those that run full on it. A text fits if its bytes do; what is
stored of one that does not is the beginning of all that was to be written.
-/

namespace AtaCapture

namespace Output

def HasRoom (o : Output) (text : String) : Prop :=
  ∀ limit ∈ o.limit, o.held.size + text.toUTF8.size ≤ limit

theorem hasRoom_of_unlimited {o : Output} (h : o.limit = none) (text : String) :
    o.HasRoom text := by
  simp [HasRoom, h]

/-- Where there is room for two texts in a row, there is room for the first, and then for the
second. -/
theorem HasRoom.append {o : Output} {first second : String} (h : o.HasRoom (first ++ second)) :
    o.HasRoom first ∧ HasRoom { o with held := o.held ++ first.toUTF8 } second := by
  have hsize : (first ++ second).toUTF8.size = first.toUTF8.size + second.toUTF8.size := by
    simp only [String.toUTF8_eq_toByteArray, String.toByteArray_append, ByteArray.size_append]
  refine ⟨fun limit hlimit => ?_, fun limit hlimit => ?_⟩
  · have := h limit hlimit
    omega
  · have := h limit hlimit
    rw [ByteArray.size_append]
    omega

theorem HasRoom.write {o : Output} {text : String} (h : o.HasRoom text) :
    o.write text = (none, { o with held := o.held ++ text.toUTF8 }) := by
  obtain ⟨held, limit⟩ := o
  cases limit with
  | none => rfl
  | some limit => simp only [Output.write, if_pos (h limit rfl)]

variable {held : ByteArray} {limit : Nat} {text : String}

theorem write_of_fits (h : held.size + text.toUTF8.size ≤ limit) :
    write { held, limit := some limit } text =
      (none, { held := held ++ text.toUTF8, limit := some limit }) := by
  simp only [write, if_pos h]

theorem write_of_not_fits (h : limit < held.size + text.toUTF8.size) :
    write { held, limit := some limit } text =
      (some full, { held := held ++ text.toUTF8.extract 0 (limit - held.size) }) := by
  simp only [write, if_neg (Nat.not_le.mpr h)]

theorem extract_of_size_le {bytes : ByteArray} {n : Nat} (h : bytes.size ≤ n) :
    bytes.extract 0 n = bytes := by
  apply ByteArray.ext
  simp only [ByteArray.data_extract, Array.extract_eq_self_iff]
  exact .inr ⟨trivial, h⟩

/-- What fits of a text is the beginning of all that is to be written. -/
theorem append_extract {line behind : ByteArray} (hheld : held.size ≤ limit)
    (hline : limit < held.size + line.size) :
    held ++ line.extract 0 (limit - held.size) =
      (held ++ (line ++ behind)).extract 0 limit := by
  have hbehind : limit - held.size - line.size = 0 := by omega
  rw [ByteArray.extract_append, ByteArray.extract_append, extract_of_size_le hheld, hbehind,
    Nat.zero_sub, Nat.zero_sub, ByteArray.extract_same, ByteArray.append_empty]

/-- What is held behind a write is what was to be held, or as much of it as fits. -/
theorem write_limited (hheld : held.size ≤ limit) (text : String) :
    write { held, limit := some limit } text =
      if (held ++ text.toUTF8).size ≤ limit then
        (none, { held := held ++ text.toUTF8, limit := some limit })
      else (some full, { held := (held ++ text.toUTF8).extract 0 limit }) := by
  rw [ByteArray.size_append]
  split
  · exact write_of_fits ‹_›
  · rename_i hlong
    have hall : _ = (held ++ (text.toUTF8 ++ .empty)).extract 0 limit :=
      append_extract hheld (Nat.not_le.mp hlong)
    rw [ByteArray.append_empty] at hall
    rw [write_of_not_fits (Nat.not_le.mp hlong), hall]

/-! ### Parts

A device need not take a text at once. It may take some of the bytes, and be offered what is
left. -/

/-- A device takes some bytes part by part, whatever the parts are, and ends with `result`. -/
inductive Stores : Output → ByteArray → Option String × Output → Prop
  /-- No byte is left. -/
  | done (o : Output) : Stores o .empty (none, o)
  /-- The first bytes fit, and the rest is offered behind them. -/
  | part {o : Output} {first rest : ByteArray} {result : Option String × Output}
      (hsome : 0 < first.size) (hfits : ∀ limit ∈ o.limit, o.held.size + first.size ≤ limit)
      (hrest : Stores { o with held := o.held ++ first } rest result) :
      Stores o (first ++ rest) result
  /-- No byte fits. -/
  | full {o : Output} {bytes : ByteArray} (hsome : 0 < bytes.size)
      (hfull : o.limit = some o.held.size) :
      Stores o bytes (some full, { o with limit := none })

variable {o : Output} {bytes : ByteArray} {result : Option String × Output}

theorem Stores.eq_of_fits (h : o.Stores bytes result)
    (hfits : ∀ limit ∈ o.limit, o.held.size + bytes.size ≤ limit) :
    result = (none, { o with held := o.held ++ bytes }) := by
  induction h with
  | done o => rw [ByteArray.append_empty]
  | part hsome hfirst hrest ih =>
      rw [ih fun limit hlimit => ?_, ByteArray.append_assoc]
      have := hfits limit hlimit
      rw [ByteArray.size_append] at this ⊢
      omega
  | full hsome hfull =>
      have := hfits _ hfull
      omega

theorem Stores.eq_of_not_fits (h : o.Stores bytes result) (hlimit : o.limit = some limit)
    (hheld : o.held.size ≤ limit) (hlong : limit < o.held.size + bytes.size) :
    result =
      (some Output.full, { held := o.held ++ bytes.extract 0 (limit - o.held.size) }) := by
  induction h with
  | done o =>
      rw [ByteArray.size_empty] at hlong
      omega
  | @part o first rest result hsome hfirst hrest ih =>
      have hroom := hfirst limit hlimit
      rw [ByteArray.size_append] at hlong
      have hsize : (o.held ++ first).size = o.held.size + first.size := ByteArray.size_append
      have hbehind := ih hlimit (by rw [hsize]; omega) (by rw [hsize]; omega)
      rw [hbehind, hsize, ByteArray.extract_append, Nat.zero_sub,
        extract_of_size_le (by omega : first.size ≤ limit - o.held.size), Nat.sub_sub,
        ByteArray.append_assoc]
  | full hsome hfull =>
      obtain rfl : _ = limit := Option.some.inj (hfull.symm.trans hlimit)
      rw [Nat.sub_self, ByteArray.extract_same, ByteArray.append_empty]

theorem stores_of_fits (hfits : ∀ limit ∈ o.limit, o.held.size + bytes.size ≤ limit) :
    o.Stores bytes (none, { o with held := o.held ++ bytes }) := by
  by_cases hempty : bytes.size = 0
  · obtain rfl : bytes = .empty := ByteArray.size_eq_zero_iff.mp hempty
    rw [ByteArray.append_empty]
    exact .done o
  · rw [← ByteArray.append_empty (b := bytes)] at hfits
    have hall := Stores.part (Nat.pos_of_ne_zero hempty) (by simpa using hfits)
      (.done { o with held := o.held ++ bytes })
    rwa [ByteArray.append_empty] at hall

theorem stores_of_not_fits (hlimit : o.limit = some limit) (hheld : o.held.size ≤ limit)
    (hlong : limit < o.held.size + bytes.size) :
    o.Stores bytes
      (some Output.full, { held := o.held ++ bytes.extract 0 (limit - o.held.size) }) := by
  by_cases hfull : limit = o.held.size
  · subst hfull
    rw [Nat.sub_self, ByteArray.extract_same, ByteArray.append_empty]
    exact .full (by omega) hlimit
  · -- All that fits is taken at once, and the device is full with it.
    have hcut : bytes.extract 0 (limit - o.held.size) ++
        bytes.extract (limit - o.held.size) bytes.size = bytes := by
      rw [ByteArray.extract_append_extract, Nat.zero_min, Nat.max_eq_right (by omega),
        ByteArray.extract_zero_size]
    have hfirst : (bytes.extract 0 (limit - o.held.size)).size = limit - o.held.size := by
      rw [ByteArray.size_extract]
      omega
    have hrest : (bytes.extract (limit - o.held.size) bytes.size).size =
        o.held.size + bytes.size - limit := by
      rw [ByteArray.size_extract]
      omega
    have hfits : ∀ other ∈ o.limit,
      o.held.size + (bytes.extract 0 (limit - o.held.size)).size ≤ other := by
      intro other hother
      obtain rfl : limit = other := Option.some.inj (hlimit.symm.trans hother)
      omega
    have hbehind : Stores { o with held := o.held ++ bytes.extract 0 (limit - o.held.size) }
        (bytes.extract (limit - o.held.size) bytes.size)
        (some full, { held := o.held ++ bytes.extract 0 (limit - o.held.size) }) := by
      refine .full (by omega) ?_
      rw [hlimit, ByteArray.size_append, hfirst]
      congr 1
      omega
    have hpart := Stores.part (by omega) hfits hbehind
    rwa [hcut] at hpart

/-- Whatever the parts are in which a device takes a text, it ends as if it had taken the text
at once. -/
theorem stores_iff (hheld : ∀ limit ∈ o.limit, o.held.size ≤ limit) :
    o.Stores text.toUTF8 result ↔ result = o.write text := by
  by_cases hroom : o.HasRoom text
  · rw [hroom.write]
    exact ⟨fun h => h.eq_of_fits hroom, fun h => h ▸ stores_of_fits hroom⟩
  · obtain ⟨held, limit⟩ := o
    cases limit with
    | none => exact absurd (hasRoom_of_unlimited rfl text) hroom
    | some limit =>
        have hlong : limit < held.size + text.toUTF8.size := by simpa [HasRoom] using hroom
        rw [write_of_not_fits hlong]
        have hheld := hheld limit rfl
        exact ⟨fun h => h.eq_of_not_fits rfl hheld hlong,
          fun h => h ▸ stores_of_not_fits rfl hheld hlong⟩

end Output

end AtaCapture
