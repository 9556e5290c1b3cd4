import AtaCapture.Feed
import AtaCapture.Proofs.Word.Truncation

/-!
What a feed gives. Until a read gives no bytes or fails, the reads of a reader hand out a row
of bytes, and a feed gives the samples of these bytes one by one, whatever they are cut into
and however often reading is interrupted. It has read no further than the sample it gives, does
not read on behind the end, and keeps the reason of a failure until somebody takes it.
-/

namespace AtaCapture

namespace Reader

/-- Some bytes as reads of at most `size` bytes hand them out. -/
def pieces (size : Nat) (data : List UInt8) : List (List UInt8) :=
  if _ : data.length ≤ size ∨ size = 0 then [data]
  else data.take size :: pieces size (data.drop size)
termination_by data.length
decreasing_by
  rw [List.length_drop]
  omega

/-- The reads that give bytes, in blocks of `size`, before one gives none or fails. -/
def reads (size : Nat) : Reader → List (List UInt8)
  | [] | .bytes [] :: _ | .failure _ :: _ => []
  | .bytes (b :: data) :: rest => pieces size (b :: data) ++ reads size rest
  | .interrupted :: rest => reads size rest

/-- The bytes that a reader hands out before a read gives none or fails. -/
def delivered : Reader → List UInt8
  | [] | .bytes [] :: _ | .failure _ :: _ => []
  | .bytes (b :: data) :: rest => b :: data ++ delivered rest
  | .interrupted :: rest => delivered rest

/-- How reading ends: the reason if it fails, and what the reader had still to give. -/
def ending : Reader → Option String × Reader
  | [] => (none, [])
  | .bytes [] :: rest => (none, rest)
  | .failure reason :: rest => (some reason, rest)
  | .bytes (_ :: _) :: rest | .interrupted :: rest => ending rest

theorem pieces_of_le {size : Nat} {data : List UInt8} (h : data.length ≤ size) :
    pieces size data = [data] := by
  rw [pieces, dif_pos (.inl h)]

theorem pieces_of_lt {size : Nat} {data : List UInt8} (hpos : 0 < size)
    (h : size < data.length) :
    pieces size data = data.take size :: pieces size (data.drop size) := by
  rw [pieces, dif_neg (by omega)]

theorem flatten_pieces (size : Nat) (data : List UInt8) :
    (pieces size data).flatten = data := by
  fun_induction pieces size data with
  | case1 data h => exact List.append_nil data
  | case2 data h ih => rw [List.flatten_cons, ih, List.take_append_drop]

/-- The size of a block makes no difference to the bytes. -/
theorem flatten_reads (size : Nat) (r : Reader) : (r.reads size).flatten = r.delivered := by
  fun_induction reads size r with
  | case1 | case2 | case3 => rfl
  | case4 b data rest ih => rw [List.flatten_append, flatten_pieces, ih, delivered]
  | case5 rest ih => exact ih

/-- What one read can do: it ends the reading with or without a failure, is interrupted, or
takes the first of the reads. -/
theorem read_cases {size : Nat} (hpos : 0 < size) (r : Reader) :
    (∃ rest, r.read size = (.bytes [], rest) ∧ r.reads size = [] ∧ r.ending = (none, rest)) ∨
    (∃ reason rest, r.read size = (.failure reason, rest) ∧ r.reads size = [] ∧
      r.ending = (some reason, rest)) ∨
    (∃ rest, r.read size = (.interrupted, rest) ∧ r.reads size = rest.reads size ∧
      r.ending = rest.ending) ∨
    ∃ b data rest, r.read size = (.bytes (b :: data), rest) ∧
      r.reads size = (b :: data) :: rest.reads size ∧ r.ending = rest.ending := by
  match r with
  | [] => exact .inl ⟨[], rfl, rfl, rfl⟩
  | .bytes [] :: rest => exact .inl ⟨rest, rfl, rfl, rfl⟩
  | .failure reason :: rest => exact .inr (.inl ⟨reason, rest, rfl, rfl, rfl⟩)
  | .interrupted :: rest => exact .inr (.inr (.inl ⟨rest, rfl, rfl, rfl⟩))
  | .bytes (b :: data) :: rest =>
      refine .inr (.inr (.inr ?_))
      by_cases h : (b :: data).length ≤ size
      · exact ⟨b, data, rest, if_pos h, by rw [reads, pieces_of_le h]; rfl, rfl⟩
      · have hlong : size < (b :: data).length := Nat.not_le.mp h
        obtain ⟨c, more, htake⟩ : ∃ c more, (b :: data).take size = c :: more :=
          List.exists_cons_of_length_pos (by rw [List.length_take]; omega)
        obtain ⟨d, behind, hdrop⟩ : ∃ d behind, (b :: data).drop size = d :: behind :=
          List.exists_cons_of_length_pos (by rw [List.length_drop]; omega)
        refine ⟨c, more, .bytes (d :: behind) :: rest, ?_, ?_, rfl⟩
        · rw [read, if_neg h, htake, hdrop]
        · rw [reads, pieces_of_lt hpos hlong, htake, hdrop, List.cons_append, reads]

end Reader

namespace Feed

def after (f : Feed) : Nat → Feed
  | 0 => f
  | n + 1 => (f.after n).next.2

theorem fill_of_ended {f : Feed} (h : f.ended = true) : f.fill = f := by
  rw [fill, dif_neg (by simp [h])]

theorem next_eq (f : Feed) :
    f.next = (f.fill.pending.head?, { f.fill with
      pending := f.fill.pending.tail
      given := f.fill.given + f.fill.pending.head?.toList.length }) := by
  rw [next]
  generalize f.fill = g
  obtain ⟨reader, block, hblock, replay, pending, bytesRead, given, ended, failure⟩ := g
  cases pending <;> rfl

/-! ### After the end -/

/-- Behind the end the reader is not asked again, whatever it still had to give. -/
theorem next_of_ended {f : Feed} (h : f.ended = true) (reader : Reader) :
    { f with reader }.next = (f.next.1, { f.next.2 with reader }) := by
  have hother : { f with reader }.fill = { f with reader } := fill_of_ended h
  rw [next_eq, next_eq, fill_of_ended h, hother]

theorem ended_after {f : Feed} (h : f.ended = true) (n : Nat) :
    (f.after n).ended = true ∧ (f.after n).failure = f.failure := by
  induction n with
  | zero => exact ⟨h, rfl⟩
  | succ n ih =>
      rw [after, next_eq, fill_of_ended ih.1]
      exact ih

theorem next_of_exhausted {f : Feed} (h : f.ended = true) (hpending : f.pending = []) :
    f.next = (none, f) := by
  rw [next, fill_of_ended h, hpending]

theorem after_of_exhausted {f : Feed} (h : f.ended = true) (hpending : f.pending = [])
    (n : Nat) : f.after n = f := by
  induction n with
  | zero => rfl
  | succ n ih => rw [after, ih, next_of_exhausted h hpending]

/-! ### Reads made -/

section

variable (script : Reader) (l : Layout) (size : Nat)

/-- The samples of the first `m` reads of a script, and the replay that has given them. -/
def decoded (m : Nat) : List Sample × Replay :=
  (Replay.start l).chunk ((script.reads size).take m).flatten

/-- The feed has made `m` reads of a script, has not come to its end, and has given `n`
samples. -/
structure Running (m n : Nat) (f : Feed) : Prop where
  block : f.block = size
  ended : f.ended = false
  reads : f.reader.reads size = (script.reads size).drop m
  ending : f.reader.ending = script.ending
  failure : f.failure = none
  bytesRead : f.bytesRead = ((script.reads size).take m).flatten.length
  replay : f.replay = (decoded script l size m).2
  pending : f.pending = (decoded script l size m).1.drop n
  shown : n ≤ (decoded script l size m).1.length
  given : f.given = n

/-- The feed has come to the end of a script and has been called `n` times. -/
structure Over (n : Nat) (f : Feed) : Prop where
  ended : f.ended = true
  failure : f.failure = script.ending.1
  reader : f.reader = script.ending.2
  bytesRead : f.bytesRead = script.delivered.length
  pending : f.pending = (Replay.samplesOfBytes l script.delivered).drop n
  given : f.given = min n (Replay.samplesOfBytes l script.delivered).length

/-- Fewer than `m` reads hold fewer than `n` samples. -/
def Eager (m n : Nat) : Prop := ∀ k < m, (decoded script l size k).1.length < n

/-- The feed has been called `n` times: it has given as many samples and read no more than
these take, or it has given all that the bytes of a script hold and come to the end. -/
def Called (n : Nat) (f : Feed) : Prop :=
  (∃ m, Running script l size m n f ∧ Eager script l size m n) ∨
    Over script l n f ∧ ((Replay.start l).chunk script.delivered).1.length < n

variable {script l size} {m n : Nat} {f : Feed}

theorem Called.over (h : Called script l size n f) (hended : f.ended = true) :
    Over script l n f := by
  rcases h with ⟨m, hrunning, -⟩ | ⟨hover, -⟩
  · rw [hrunning.ended] at hended
    cases hended
  · exact hover

theorem take_add_one_of_drop {data : List UInt8} {rest : List (List UInt8)}
    (h : (script.reads size).drop m = data :: rest) :
    (script.reads size).take (m + 1) = (script.reads size).take m ++ [data] := by
  have hread : (script.reads size)[m]? = some data := by
    rw [← List.head?_drop, h, List.head?_cons]
  rw [List.take_add_one, hread, Option.toList_some]

theorem decoded_add_one {data : List UInt8} {rest : List (List UInt8)}
    (h : (script.reads size).drop m = data :: rest) :
    decoded script l size (m + 1) =
      ((decoded script l size m).1 ++ ((decoded script l size m).2.chunk data).1,
        ((decoded script l size m).2.chunk data).2) := by
  rw [decoded, take_add_one_of_drop h, List.flatten_append, List.flatten_singleton,
    Replay.chunk_append]
  rfl

theorem decoded_of_drop_eq_nil (h : (script.reads size).drop m = []) :
    decoded script l size m = (Replay.start l).chunk script.delivered := by
  rw [decoded, List.take_of_length_le (List.drop_eq_nil_iff.mp h), script.flatten_reads]

/-- What some reads hold, all of them begin with. -/
theorem prefix_decoded (m : Nat) :
    (decoded script l size m).1 <+: ((Replay.start l).chunk script.delivered).1 := by
  have hall : script.delivered =
      ((script.reads size).take m).flatten ++ ((script.reads size).drop m).flatten := by
    rw [← List.flatten_append, List.take_append_drop, script.flatten_reads]
  rw [hall, Replay.chunk_append]
  exact List.prefix_append ..

theorem prefix_samples (script : Reader) (l : Layout) (size m : Nat) :
    (decoded script l size m).1 <+: Replay.samplesOfBytes l script.delivered :=
  (prefix_decoded m).trans (List.prefix_append ..)

theorem running_start (hpos : 0 < size) :
    Running script l size 0 0 (Feed.start script l size) where
  block := Nat.max_eq_left hpos
  ended := rfl
  reads := rfl
  ending := rfl
  failure := rfl
  bytesRead := rfl
  replay := rfl
  pending := rfl
  shown := Nat.zero_le _
  given := rfl

/-! ### What a read does -/

theorem running_bytes (h : Running script l size m n f) (hpending : f.pending = [])
    {data : List UInt8} {reader : Reader}
    (hreads : f.reader.reads size = data :: reader.reads size)
    (hending : f.reader.ending = reader.ending) :
    Running script l size (m + 1) n { f with
      reader
      replay := (f.replay.chunk data).2
      pending := (f.replay.chunk data).1
      bytesRead := f.bytesRead + data.length } := by
  have hdrop : (script.reads size).drop m = data :: reader.reads size :=
    h.reads.symm.trans hreads
  have hstep := decoded_add_one (l := l) hdrop
  refine ⟨h.block, h.ended, ?_, hending.symm.trans h.ending, h.failure, ?_, ?_, ?_, ?_,
    h.given⟩
  · rw [← List.drop_drop, hdrop]
    rfl
  · rw [take_add_one_of_drop hdrop, List.flatten_append, List.flatten_singleton,
      List.length_append, ← h.bytesRead]
  · rw [hstep, h.replay]
  · rw [hstep, List.drop_append_of_le_length h.shown, ← h.pending, hpending, h.replay,
      List.nil_append]
  · rw [hstep, List.length_append]
    exact Nat.le_trans h.shown (Nat.le_add_right ..)

theorem over_close (h : Running script l size m n f) (hpending : f.pending = [])
    (hend : f.reader.reads size = []) {failure : Option String} {reader : Reader}
    (hending : f.reader.ending = (failure, reader)) :
    Over script l n (close { f with reader, failure }) ∧
      ((Replay.start l).chunk script.delivered).1.length ≤ n := by
  have hdrop : (script.reads size).drop m = [] := h.reads.symm.trans hend
  have hall := decoded_of_drop_eq_nil (l := l) hdrop
  have hreplay := h.replay
  have hshown := h.shown
  have hgiven : ((Replay.start l).chunk script.delivered).1.length ≤ n := by
    rw [← hall, ← List.drop_eq_nil_iff, ← h.pending, hpending]
  rw [hall] at hreplay hshown
  have hn : ((Replay.start l).chunk script.delivered).1.length = n :=
    Nat.le_antisymm hgiven hshown
  have hscript : script.ending = (failure, reader) := h.ending.symm.trans hending
  refine ⟨⟨rfl, by rw [hscript]; rfl, by rw [hscript]; rfl, ?_, ?_, ?_⟩, hgiven⟩
  · rw [close, h.bytesRead, List.take_of_length_le (List.drop_eq_nil_iff.mp hdrop),
      script.flatten_reads]
  · rw [Replay.samplesOfBytes, List.drop_left' hn, close, hreplay]
  · rw [Replay.samplesOfBytes, List.length_append, hn, Nat.min_eq_left (Nat.le_add_right ..)]
    exact h.given

theorem running_read (hpos : 0 < size) (h : Running script l size m n f)
    (hpending : f.pending = []) (heager : Eager script l size m (n + 1)) :
    (∃ m', Running script l size m' n f.read ∧ Eager script l size m' (n + 1)) ∨
      Over script l n f.read ∧ ((Replay.start l).chunk script.delivered).1.length ≤ n := by
  obtain rfl := h.block
  rcases f.reader.read_cases hpos with ⟨rest, hread, hreads, hending⟩ |
    ⟨reason, rest, hread, hreads, hending⟩ | ⟨rest, hread, hreads, hending⟩ |
    ⟨b, data, rest, hread, hreads, hending⟩
  · rw [read, hread]
    exact .inr (over_close h hpending hreads (h.failure ▸ hending))
  · rw [read, hread]
    exact .inr (over_close h hpending hreads hending)
  · rw [read, hread]
    exact .inl ⟨m, { h with
      reads := hreads.symm.trans h.reads
      ending := hending.symm.trans h.ending }, heager⟩
  · rw [read, hread]
    refine .inl ⟨m + 1, running_bytes h hpending hreads hending, fun k hk => ?_⟩
    rcases Nat.lt_succ_iff_lt_or_eq.mp hk with hk | rfl
    · exact heager k hk
    · rw [Nat.lt_succ_iff, ← List.drop_eq_nil_iff, ← h.pending, hpending]

/-- Reading stops with a sample to give or at the end. -/
theorem running_fill (hpos : 0 < size) (h : Running script l size m n f)
    (heager : Eager script l size m (n + 1)) :
    (∃ m', Running script l size m' n f.fill ∧ Eager script l size m' (n + 1) ∧
      f.fill.pending ≠ []) ∨
      Over script l n f.fill ∧ ((Replay.start l).chunk script.delivered).1.length ≤ n := by
  fun_induction fill f generalizing m with
  | case1 f hmore ih =>
      rcases running_read hpos h hmore.1 heager with ⟨m', hread, heager'⟩ | ⟨hover, hall⟩
      · exact ih hread heager'
      · rw [fill_of_ended hover.ended]
        exact .inr ⟨hover, hall⟩
  | case2 f hdone =>
      exact .inl ⟨m, h, heager, fun hpending => hdone ⟨hpending, h.ended⟩⟩

/-! ### What a call gives -/

theorem next_over (h : Over script l n f.fill) :
    f.next.1 = (Replay.samplesOfBytes l script.delivered)[n]? ∧
    Over script l (n + 1) f.next.2 := by
  have hhead : f.fill.pending.head? = (Replay.samplesOfBytes l script.delivered)[n]? := by
    rw [h.pending, List.head?_drop]
  rw [next_eq]
  refine ⟨hhead, h.ended, h.failure, h.reader, h.bytesRead, ?_, ?_⟩
  · rw [h.pending, List.tail_drop]
  · rw [hhead, h.given]
    by_cases hn : n < (Replay.samplesOfBytes l script.delivered).length
    · rw [List.getElem?_eq_getElem hn, Option.toList_some, List.length_singleton]
      dsimp only
      omega
    · rw [List.getElem?_eq_none (Nat.not_lt.mp hn), Option.toList_none, List.length_nil]
      dsimp only
      omega

theorem next_running (h : Running script l size m n f.fill) (hpending : f.fill.pending ≠ []) :
    f.next.1 = (Replay.samplesOfBytes l script.delivered)[n]? ∧
      Running script l size m (n + 1) f.next.2 := by
  have hshown : n < (decoded script l size m).1.length := by
    rw [h.pending, ne_eq, List.drop_eq_nil_iff] at hpending
    exact Nat.not_le.mp hpending
  have hhead : f.fill.pending.head? = some (decoded script l size m).1[n] := by
    rw [h.pending, List.head?_drop, List.getElem?_eq_getElem hshown]
  obtain ⟨more, hmore⟩ := prefix_samples script l size m
  rw [next_eq]
  refine ⟨?_, { h with pending := ?_, shown := hshown, given := ?_ }⟩
  · rw [← hmore, List.getElem?_append_left hshown, List.getElem?_eq_getElem hshown, hhead]
  · rw [h.pending, List.tail_drop]
  · rw [hhead, h.given]
    rfl

theorem next_called (hpos : 0 < size) (h : Called script l size n f) :
    f.next.1 = (Replay.samplesOfBytes l script.delivered)[n]? ∧
      Called script l size (n + 1) f.next.2 := by
  rcases h with ⟨m, hrunning, heager⟩ | ⟨hover, hall⟩
  · have hless : Eager script l size m (n + 1) := fun k hk => Nat.lt_succ_of_lt (heager k hk)
    rcases running_fill hpos hrunning hless with ⟨m', hfill, heager', hpending⟩ | ⟨hfill, hall⟩
    · obtain ⟨hgives, hrunning'⟩ := next_running hfill hpending
      exact ⟨hgives, .inl ⟨m', hrunning', heager'⟩⟩
    · obtain ⟨hgives, hover⟩ := next_over hfill
      exact ⟨hgives, .inr ⟨hover, Nat.lt_succ_of_le hall⟩⟩
  · rw [← fill_of_ended hover.ended] at hover
    obtain ⟨hgives, hover'⟩ := next_over hover
    exact ⟨hgives, .inr ⟨hover', Nat.lt_succ_of_lt hall⟩⟩

theorem called_after (hpos : 0 < size) (n : Nat) :
    Called script l size n ((Feed.start script l size).after n) := by
  induction n with
  | zero => exact .inl ⟨0, running_start hpos, fun k hk => absurd hk (Nat.not_lt_zero k)⟩
  | succ n ih => exact (next_called hpos ih).2

end

/-- A feed gives the samples of the bytes that its reader hands out before a read gives none or
fails, and then nothing more. For the samples that the bytes hold themselves it makes the
fewest reads whose bytes hold as many. Behind them it is over: it has read all bytes, leaves
its reader alone whatever that had still to give, and has the reason of a failure for the first
one who takes it. -/
theorem next_of_script (script : Reader) (l : Layout) (size : Nat) (hpos : 0 < size) :
    let feed := (Feed.start script l size).after
    let samples := Replay.samplesOfBytes l script.delivered
    let held (bytes : List UInt8) := ((Replay.start l).chunk bytes).1.length
    (∀ n, (feed n).next.1 = samples[n]? ∧ (feed n).given = min n samples.length) ∧
    (∀ n < held script.delivered, ∃ m,
      (feed (n + 1)).bytesRead = ((script.reads size).take m).flatten.length ∧
      n < held ((script.reads size).take m).flatten ∧
      ∀ k < m, held ((script.reads size).take k).flatten ≤ n) ∧
    (∀ n, held script.delivered < n →
      (feed n).ended = true ∧ (feed n).bytesRead = script.delivered.length) ∧
    (∀ n, (feed n).ended = true → (feed n).reader = script.ending.2 ∧ ∀ reader : Reader,
      { feed n with reader }.next = ((feed n).next.1, { (feed n).next.2 with reader })) ∧
    (∀ n, (feed n).takeFailure.1 = if (feed n).ended then script.ending.1 else none) ∧
    ∀ n, (feed n).ended = true → ∀ more,
      (((feed n).takeFailure.2).after more).takeFailure.1 = none ∧
      (samples.length < n → (((feed n).takeFailure.2).after more).next.1 = none) := by
  intro feed samples held
  have hcalled (n : Nat) : Called script l size n (feed n) := called_after hpos n
  refine ⟨fun n => ⟨(next_called hpos (hcalled n)).1, ?_⟩, fun n hn => ?_, fun n hn => ?_,
    fun n hended => ⟨?_, next_of_ended hended⟩, fun n => ?_,
    fun n hended more => ⟨?_, fun hn => ?_⟩⟩
  · rcases hcalled n with ⟨m, hrunning, -⟩ | ⟨hover, -⟩
    · have hshown := Nat.le_trans hrunning.shown (prefix_samples script l size m).length_le
      rw [hrunning.given, Nat.min_eq_left hshown]
    · exact hover.given
  · rcases hcalled (n + 1) with ⟨m, hrunning, heager⟩ | ⟨-, hall⟩
    · exact ⟨m, hrunning.bytesRead, hrunning.shown,
        fun k hk => Nat.le_of_lt_succ (heager k hk)⟩
    · exact absurd hall (Nat.not_lt.mpr hn)
  · rcases hcalled n with ⟨m, hrunning, -⟩ | ⟨hover, -⟩
    · have hshown := Nat.le_trans hrunning.shown (prefix_decoded m).length_le
      exact absurd hn (Nat.not_lt.mpr hshown)
    · exact ⟨hover.ended, hover.bytesRead⟩
  · exact ((hcalled n).over hended).reader
  · rcases hcalled n with ⟨m, hrunning, -⟩ | ⟨hover, -⟩
    · rw [hrunning.ended]
      exact hrunning.failure
    · rw [hover.ended]
      exact hover.failure
  · exact (ended_after (f := (feed n).takeFailure.2) hended more).2
  · have hpending : (feed n).pending = [] := by
      rw [((hcalled n).over hended).pending, List.drop_eq_nil_iff]
      exact Nat.le_of_lt hn
    rw [after_of_exhausted (f := (feed n).takeFailure.2) hended hpending,
      next_of_exhausted (f := (feed n).takeFailure.2) hended hpending]

/-- A reader that is interrupted twice, hands out nine bytes in blocks of three and then fails:
the first sample takes two reads, the second marks the end, and what comes behind the failure
is not read. -/
theorem next_of_script_failure :
    let script : Reader := [.interrupted, .bytes [0x07, 0, 0, 0xF0, 0xFE], .interrupted,
      .bytes [0xFF, 0x07, 0xF8, 0xAA], .failure "device gone", .bytes [1, 2, 3, 4]]
    let feed := (Feed.start script .standard 3).after
    0 < 3 ∧
      ((feed 0).next.1 = some ⟨5, 7⟩ ∧ (feed 1).next.1 = some ⟨25, 7⟩ ∧
        (feed 2).next.1 = none) ∧
      ((feed 1).bytesRead = 5 ∧ (feed 3).bytesRead = 9 ∧ (feed 3).given = 2) ∧
      ((feed 3).ended = true ∧ (feed 3).reader = [.bytes [1, 2, 3, 4]]) ∧
      (feed 3).takeFailure.1 = some "device gone" ∧
      (((feed 3).takeFailure.2).after 1).takeFailure.1 = none ∧
      (((feed 3).takeFailure.2).after 1).next.1 = none := by
  intro script feed
  obtain ⟨hnext, hreads, hover, hends, htaken, hagain⟩ :=
    next_of_script script .standard 3 (by decide)
  obtain ⟨hended, hbytes⟩ := hover 3 (by decide +kernel)
  have hgone := htaken 3
  rw [if_pos hended] at hgone
  refine ⟨by decide, ⟨?_, ?_, ?_⟩, ⟨?_, hbytes.trans (by decide +kernel), ?_⟩,
    ⟨hended, (hends 3 hended).1.trans (by decide +kernel)⟩, hgone.trans (by decide +kernel),
    (hagain 3 hended 1).1, (hagain 3 hended 1).2 (by decide +kernel)⟩
  · exact (hnext 0).1.trans (by decide +kernel)
  · exact (hnext 1).1.trans (by decide +kernel)
  · exact (hnext 2).1.trans (by decide +kernel)
  · obtain ⟨m, hread, hheld, hleast⟩ := hreads 0 (by decide +kernel)
    -- No sample is held by one read, and two reads hold one.
    have hm : m = 2 := by
      rcases Nat.lt_trichotomy m 2 with hm | hm | hm
      · match m, hm with
        | 0, _ => exact absurd hheld (by decide +kernel)
        | 1, _ => exact absurd hheld (by decide +kernel)
      · exact hm
      · exact absurd (hleast 2 hm) (by decide +kernel)
    rw [hread, hm]
    decide +kernel
  · exact (hnext 3).2.trans (by decide +kernel)

end Feed

end AtaCapture
