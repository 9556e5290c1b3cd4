import AtaCapture.Proofs.Word.Reading
import AtaCapture.Word.Recorder

/-!
Recording and replaying in step. A recorder only ever appends words, and what they say
determines its clock and the vector it knows. So a replay of the words shows whatever was
announced, however requests that are taken, refused and skipped follow one another, and
overflow marks between them are replayed as the words that they are.
-/

namespace AtaCapture.Recorder

open Sample

inductive Request where
  | announce (time levels : Nat)
  | markOverflow (millis : Nat)
  deriving DecidableEq, Repr

def handle (r : Recorder) : Request → Recorder
  | .announce time levels =>
    match r.announce time levels with
    | .ok r' => r'
    | .error _ => r
  | .markOverflow millis => r.markOverflow millis

def handleAll (r : Recorder) (requests : List Request) : Recorder := requests.foldl handle r

/-- The vector fits, and it holds already or it comes later than all words and on a tick. -/
def Accepts (r : Recorder) (time levels : Nat) : Prop :=
  levels ≤ r.layout.maxPayload ∧
  (r.levels = some levels ∨ r.time < time ∧ r.layout.tick ∣ time)

instance (r : Recorder) (time levels : Nat) : Decidable (r.Accepts time levels) := by
  unfold Accepts
  infer_instance

/-- The vectors that a request announces: one if it is accepted, and for an overflow mark the
snapshots among its words. -/
def announced (r : Recorder) : Request → List Sample
  | .announce time levels => if r.Accepts time levels then [{ time, levels }] else []
  | .markOverflow millis => r.layout.snapshots r.time (overflowMark millis)

def announcedBy (r : Recorder) : List Request → List Sample
  | [] => []
  | q :: requests => r.announced q ++ (r.handle q).announcedBy requests

/-! ### Appending words -/

/-- `r'` has recorded `words` after `r`. -/
structure Extended (r r' : Recorder) (words : List Word) : Prop where
  layout : r'.layout = r.layout
  written : r'.written.toList = r.written.toList ++ words
  time : r'.time = r.time + r.layout.ticks words
  levels : r'.levels = lastLevels r.levels (r.layout.snapshots r.time words)

theorem Extended.refl (r : Recorder) : Extended r r [] :=
  ⟨rfl, (List.append_nil _).symm, rfl, rfl⟩

theorem Extended.trans {a b c : Recorder} {u v : List Word} (hab : Extended a b u)
    (hbc : Extended b c v) : Extended a c (u ++ v) where
  layout := hbc.layout.trans hab.layout
  written := by rw [hbc.written, hab.written, List.append_assoc]
  time := by rw [hbc.time, hab.time, hab.layout, Layout.ticks_append, Nat.add_assoc]
  levels := by
    rw [hbc.levels, hab.levels, hab.time, hab.layout, Layout.snapshots_append,
      lastLevels_append]

theorem extended_append (r : Recorder) (w : Word) : Extended r (r.append w) [w] where
  layout := rfl
  written := Array.toList_push
  time := rfl
  levels := by
    cases hread : (r.layout.read w).2 with
    | none => simp [append, Layout.snapshots, hread]
    | some levels => simp [append, Layout.snapshots, hread]

theorem extended_foldl_append (r : Recorder) (words : List Word) :
    Extended r (words.foldl append r) words := by
  induction words generalizing r with
  | nil => exact .refl r
  | cons w words ih => exact (r.extended_append w).trans (ih (r.append w))

def Consistent (r : Recorder) : Prop := Extended (start r.layout) r r.written.toList

theorem consistent_start (l : Layout) : (start l).Consistent := .refl _

theorem Consistent.extended {r r' : Recorder} {words : List Word} (hr : r.Consistent)
    (h : Extended r r' words) : r'.Consistent := by
  have hstart := hr.trans h
  rwa [← h.written, ← h.layout] at hstart

theorem Consistent.tick_dvd_time {r : Recorder} (hr : r.Consistent) :
    r.layout.tick ∣ r.time := by
  have htime : r.time = 0 + r.layout.ticks r.written.toList := hr.time
  rw [htime, Nat.zero_add]
  exact r.layout.tick_dvd_ticks _

theorem Consistent.levels_le {r : Recorder} (hr : r.Consistent) {levels : Nat}
    (h : r.levels = some levels) : levels ≤ r.layout.maxPayload := by
  have hlevels : r.levels = lastLevels none (r.layout.snapshots 0 r.written.toList) :=
    hr.levels
  rw [h, lastLevels, Option.or_none, eq_comm, Option.map_eq_some_iff] at hlevels
  obtain ⟨s, hs, rfl⟩ := hlevels
  exact Layout.levels_le_of_mem_snapshots s (List.mem_of_getLast? hs)

/-! ### What a request can do -/

variable {r : Recorder} {time levels : Nat}

theorem unitsUntil_of_reaches (hlater : r.time < time) (htick : r.layout.tick ∣ time)
    (hreaches : r.layout.Reaches ((time - r.time) / r.layout.tick)) :
    r.unitsUntil time = .ok ((time - r.time) / r.layout.tick) := by
  have hmod := Nat.mod_eq_zero_of_dvd htick
  simp only [unitsUntil, Nat.not_le.mpr hlater, hmod, hreaches, ↓reduceIte, ne_eq,
    not_true_eq_false]

theorem unitsUntil_eq_ok (hl : r.layout.Faithful) (hlater : r.time < time)
    (htick : r.layout.tick ∣ time) : r.unitsUntil time =
      .ok ((time - r.time) / r.layout.tick) :=
  unitsUntil_of_reaches hlater htick (hl.reaches _)

theorem unitsUntil_eq_error (h : ¬(r.time < time ∧ r.layout.tick ∣ time)) :
    ∃ fault, r.unitsUntil time = .error fault := by
  simp only [unitsUntil]
  split
  · exact ⟨_, rfl⟩
  · rename_i hlater
    have htick : time % r.layout.tick ≠ 0 := fun hmod =>
      h ⟨Nat.not_le.mp hlater, Nat.dvd_of_mod_eq_zero hmod⟩
    exact ⟨_, if_pos htick⟩

/-- The units up to a time on a tick make up the way there. -/
theorem tick_mul_units (hr : r.Consistent) (hlater : r.time < time)
    (htick : r.layout.tick ∣ time) :
    0 < (time - r.time) / r.layout.tick ∧
      r.layout.tick * ((time - r.time) / r.layout.tick) = time - r.time := by
  have hmul := Nat.mul_div_cancel' (Nat.dvd_sub htick hr.tick_dvd_time)
  refine ⟨Nat.pos_of_ne_zero fun hzero => ?_, hmul⟩
  rw [hzero, Nat.mul_zero] at hmul
  omega

theorem announce_of_not_accepts (h : ¬r.Accepts time levels) :
    ∃ fault, r.announce time levels = .error fault := by
  simp only [announce]
  by_cases hwide : r.layout.maxPayload < levels
  · exact ⟨_, by rw [if_pos hwide]; rfl⟩
  · have hfits := Nat.not_lt.mp hwide
    have hchanged : r.levels ≠ some levels := fun hsame => h ⟨hfits, .inl hsame⟩
    obtain ⟨fault, hfault⟩ := unitsUntil_eq_error fun hlater => h ⟨hfits, .inr hlater⟩
    exact ⟨fault, by rw [if_neg hwide, if_neg hchanged, hfault]; rfl⟩

theorem announce_of_same (hfits : levels ≤ r.layout.maxPayload)
    (hsame : r.levels = some levels) : r.announce time levels = .ok r := by
  simp only [announce]
  rw [if_neg (Nat.not_lt.mpr hfits), if_pos hsame]
  rfl

theorem announce_of_unitsUntil (hfits : levels ≤ r.layout.maxPayload)
    (hchanged : r.levels ≠ some levels) {units : Nat}
    (hunits : r.unitsUntil time = .ok units) :
    r.announce time levels = .ok { r with
      time, levels := some levels
      written := r.written ++ r.layout.gapWords units levels } := by
  simp only [announce]
  rw [if_neg (Nat.not_lt.mpr hfits), if_neg hchanged, hunits]
  rfl

theorem announce_of_changed (hl : r.layout.Faithful) (hr : r.Consistent)
    (hfits : levels ≤ r.layout.maxPayload) (hchanged : r.levels ≠ some levels)
    (hlater : r.time < time) (htick : r.layout.tick ∣ time) :
    ∃ r' words, r.announce time levels = .ok r' ∧ Extended r r' words ∧
      r.layout.snapshots r.time words = [{ time, levels }] ∧ r'.time = time := by
  obtain ⟨hpos, hmul⟩ := tick_mul_units hr hlater htick
  have hreached : r.time + r.layout.tick * ((time - r.time) / r.layout.tick) = time := by
    rw [hmul]
    omega
  have hshown := Layout.snapshots_gapWords hl hpos hfits r.time
  rw [hreached] at hshown
  have hok := announce_of_unitsUntil hfits hchanged (unitsUntil_eq_ok hl hlater htick)
  refine ⟨_, _, hok, ⟨rfl, Array.toList_appendList, ?_, ?_⟩, hshown, rfl⟩
  · rw [Layout.ticks_gapWords hl hpos hfits, hreached]
  · rw [hshown]
    rfl

theorem accepts_iff (hl : r.layout.Faithful) (hr : r.Consistent) :
    (∃ r', r.announce time levels = .ok r') ↔ r.Accepts time levels := by
  constructor
  · rintro ⟨r', hok⟩
    refine Decidable.byContradiction fun hrefused => ?_
    obtain ⟨fault, hfault⟩ := announce_of_not_accepts hrefused
    simp [hok] at hfault
  · rintro ⟨hfits, hsame | ⟨hlater, htick⟩⟩
    · exact ⟨r, announce_of_same hfits hsame⟩
    · by_cases hsame : r.levels = some levels
      · exact ⟨r, announce_of_same hfits hsame⟩
      · obtain ⟨r', _, hok, -⟩ := announce_of_changed hl hr hfits hsame hlater htick
        exact ⟨r', hok⟩

theorem handle_announce_eq_self (h : ¬r.Accepts time levels ∨ r.levels = some levels) :
    r.handle (.announce time levels) = r := by
  by_cases hrefused : r.Accepts time levels
  · have hsame := h.resolve_left (not_not_intro hrefused)
    simp only [handle, announce_of_same hrefused.1 hsame]
  · obtain ⟨fault, hfault⟩ := announce_of_not_accepts hrefused
    simp only [handle, hfault]

/-- Whatever is asked, some words are appended, and they show what the request announces. -/
theorem handle_extended (hl : r.layout.Faithful) (hr : r.Consistent) (q : Request) :
    ∃ words, Extended r (r.handle q) words ∧
      changes r.levels (r.announced q) = changes r.levels (r.layout.snapshots r.time words) ∧
      lastLevels r.levels (r.announced q) = (r.handle q).levels := by
  cases q with
  | markOverflow millis =>
      have h := r.extended_foldl_append (overflowMark millis)
      exact ⟨overflowMark millis, h, rfl, h.levels.symm⟩
  | announce time levels =>
      by_cases haccepts : r.Accepts time levels
      · by_cases hsame : r.levels = some levels
        · rw [handle_announce_eq_self (.inr hsame)]
          refine ⟨[], .refl r, ?_, ?_⟩ <;> simp [announced, haccepts, changes, hsame]
        · obtain ⟨hfits, hlater⟩ := haccepts
          obtain ⟨hlater, htick⟩ := hlater.resolve_left hsame
          obtain ⟨r', words, hok, hwords, hshown, -⟩ :=
            announce_of_changed hl hr hfits hsame hlater htick
          have hhandle : r.handle (.announce time levels) = r' := by simp only [handle, hok]
          have hannounced : r.announced (.announce time levels) = [{ time, levels }] :=
            if_pos ⟨hfits, .inr ⟨hlater, htick⟩⟩
          rw [hhandle, hannounced, ← hshown]
          exact ⟨words, hwords, rfl, hwords.levels.symm⟩
      · rw [handle_announce_eq_self (.inl haccepts)]
        refine ⟨[], .refl r, ?_, ?_⟩ <;> simp [announced, haccepts]

/-! ### Whole recordings -/

theorem handleAll_extended (hl : r.layout.Faithful) (hr : r.Consistent)
    (requests : List Request) :
    ∃ words, Extended r (r.handleAll requests) words ∧
      changes r.levels (r.announcedBy requests) =
        changes r.levels (r.layout.snapshots r.time words) := by
  induction requests generalizing r with
  | nil => exact ⟨[], .refl r, rfl⟩
  | cons q requests ih =>
      obtain ⟨first, hfirst, hchanges, hlast⟩ := handle_extended hl hr q
      have hl' : (r.handle q).layout.Faithful := hfirst.layout ▸ hl
      obtain ⟨rest, hrest, hlater⟩ := ih hl' (hr.extended hfirst)
      refine ⟨first ++ rest, hfirst.trans hrest, ?_⟩
      rw [announcedBy, changes_append, hlast, hlater, hchanges, hfirst.layout, hfirst.time,
        hfirst.levels, Layout.snapshots_append, changes_append]

/-! ### The end of a recording -/

variable {stop : Nat}

theorem endAt_of_not_later (h : stop ≤ r.time) : r.endAt stop = .ok r.written.toList := by
  simp only [endAt]
  rw [if_pos h]
  rfl

theorem endAt_of_unitsUntil (hlater : r.time < stop) {units : Nat}
    (hunits : r.unitsUntil stop = .ok units) :
    r.endAt stop = .ok (r.written.toList ++ r.layout.tailWords units (r.levels.getD 0)) := by
  simp only [endAt]
  rw [if_neg (Nat.not_le.mpr hlater), hunits]
  rfl

theorem endAt_of_later (hl : r.layout.Faithful) (hlater : r.time < stop)
    (htick : r.layout.tick ∣ stop) :
    r.endAt stop = .ok (r.written.toList ++
      r.layout.tailWords ((stop - r.time) / r.layout.tick) (r.levels.getD 0)) :=
  endAt_of_unitsUntil hlater (unitsUntil_eq_ok hl hlater htick)

theorem endAt_ok_iff (hl : r.layout.Faithful) :
    (∃ words, r.endAt stop = .ok words) ↔ stop ≤ r.time ∨ r.layout.tick ∣ stop := by
  constructor
  · rintro ⟨words, hok⟩
    refine Decidable.byContradiction fun hrefused => ?_
    rw [not_or] at hrefused
    obtain ⟨fault, hfault⟩ := unitsUntil_eq_error (r := r) fun h => hrefused.2 h.2
    simp only [endAt] at hok
    rw [if_neg hrefused.1, hfault] at hok
    cases hok
  · intro h
    by_cases hlater : r.time < stop
    · exact ⟨_, endAt_of_later hl hlater (h.resolve_left (Nat.not_le.mpr hlater))⟩
    · exact ⟨_, endAt_of_not_later (Nat.not_lt.mp hlater)⟩

/-- A recording lasts until its end is asked for, or as long as its words if they go on after
that. What is added shows at most the vector that holds anyway. -/
theorem endAt_tail (hl : r.layout.Faithful) (hr : r.Consistent) {words : List Word}
    (hok : r.endAt stop = .ok words) :
    ∃ tail, words = r.written.toList ++ tail ∧ r.time + r.layout.ticks tail = max stop r.time ∧
      (r.layout.snapshots r.time tail = [] ∨ r.time < stop ∧
        r.layout.snapshots r.time tail = [{ time := stop, levels := r.levels.getD 0 }]) := by
  by_cases hlater : r.time < stop
  · have htick := ((endAt_ok_iff hl).mp ⟨words, hok⟩).resolve_left (Nat.not_le.mpr hlater)
    have hfits : r.levels.getD 0 ≤ r.layout.maxPayload := by
      cases hlevels : r.levels with
      | none => exact Nat.zero_le _
      | some levels => exact hr.levels_le hlevels
    obtain ⟨hpos, hmul⟩ := tick_mul_units hr hlater htick
    have hreached : r.time + r.layout.tick * ((stop - r.time) / r.layout.tick) = stop := by
      rw [hmul]
      omega
    rw [endAt_of_later hl hlater htick, Except.ok.injEq] at hok
    refine ⟨_, hok.symm, ?_, ?_⟩
    · rw [Layout.ticks_tailWords hl hpos hfits, hreached]
      omega
    · have hshown := Layout.snapshots_tailWords hl hpos hfits r.time
      rw [hreached] at hshown
      exact hshown.imp_right fun h => ⟨hlater, h⟩
  · have hearly := Nat.not_lt.mp hlater
    rw [endAt_of_not_later hearly, Except.ok.injEq] at hok
    refine ⟨[], by rw [← hok, List.append_nil], ?_, .inl rfl⟩
    rw [Layout.ticks_nil, Nat.add_zero, Nat.max_eq_right hearly]

theorem samplesOfWords_endAt (hl : r.layout.Faithful) (hr : r.Consistent) {words : List Word}
    (hok : r.endAt stop = .ok words) :
    (Replay.start r.layout).samplesOfWords words =
      heldUntil (changes none (r.layout.snapshots 0 r.written.toList)) (max stop r.time) := by
  have htime : r.time = 0 + r.layout.ticks r.written.toList := hr.time
  have hlevels : r.levels = lastLevels none (r.layout.snapshots 0 r.written.toList) :=
    hr.levels
  obtain ⟨tail, rfl, hticks, htail⟩ := endAt_tail hl hr hok
  rw [Replay.samplesOfWords_start, Layout.snapshots_append, changes_append,
    Layout.ticks_append, ← hlevels, ← htime, ← hticks]
  have hsum : r.layout.ticks r.written.toList + r.layout.ticks tail =
      r.time + r.layout.ticks tail := by
    omega
  rw [hsum]
  rcases htail with htail | ⟨hlater, htail⟩
  · rw [htail, changes, List.append_nil]
  · cases hknown : r.levels with
    | some levels => simp [htail, hknown, changes]
    | none =>
        -- Nothing was announced yet, so the tail shows its vector as the first one.
        have hnone : r.layout.snapshots 0 r.written.toList = [] := by
          rw [hknown, lastLevels, Option.or_none, eq_comm, Option.map_eq_none_iff,
            List.getLast?_eq_none_iff] at hlevels
          exact hlevels
        have hstop : r.time + r.layout.ticks tail = stop := by omega
        simp [htail, hknown, hnone, hstop, changes, heldUntil, Nat.zero_lt_of_lt hlater]

/-- A replay of a recording shows what was announced. This holds after any requests, taken or
not: a vector is taken just if it fits and holds already or comes later on a tick, a request
that is refused or changes nothing leaves the recorder alone, the replay has reached the
recorder's time and given the changes among the announced vectors, and a recording that is made
to last until a tick shows these and the last of them at its end. -/
theorem replay_recorded (l : Layout) (hl : l.Faithful) (requests : List Request) :
    let r := (start l).handleAll requests
    let given := changes none ((start l).announcedBy requests)
    (∀ time levels,
      ((∃ r', r.announce time levels = .ok r') ↔ r.Accepts time levels) ∧
      (¬r.Accepts time levels ∨ r.levels = some levels →
        r.handle (.announce time levels) = r)) ∧
    (((Replay.start l).words r.written.toList).2.time = r.time ∧
      ((Replay.start l).words r.written.toList).1 = given) ∧
    (∀ stop,
      ((∃ words, r.endAt stop = .ok words) ↔ stop ≤ r.time ∨ l.tick ∣ stop) ∧
      ∀ words, r.endAt stop = .ok words →
        (Replay.start l).samplesOfWords words = heldUntil given (max stop r.time) ∧
        ((Replay.start l).words words).2.time = max stop r.time) := by
  intro r given
  obtain ⟨words, hwords, hgiven⟩ :=
    handleAll_extended (r := start l) hl (consistent_start l) requests
  have hr : r.Consistent := (consistent_start l).extended hwords
  have hlayout : r.layout = l := hwords.layout
  have hwritten : r.written.toList = words := hwords.written
  have hshown : given = changes none (l.snapshots 0 r.written.toList) := by
    rw [hwritten]
    exact hgiven
  have hl' : r.layout.Faithful := hlayout ▸ hl
  have hmoved := (Replay.start l).moved_words r.written.toList
  refine ⟨fun time levels => ⟨accepts_iff hl' hr, handle_announce_eq_self⟩, ⟨?_, ?_⟩,
    fun stop => ?_⟩
  · rw [hmoved.time, hwritten, hwords.time]
    rfl
  · rw [hmoved.samples, hshown]
    rfl
  · rw [← hlayout]
    refine ⟨endAt_ok_iff hl', fun words hok => ?_⟩
    rw [samplesOfWords_endAt hl' hr hok, hshown, hlayout]
    refine ⟨rfl, ?_⟩
    obtain ⟨tail, rfl, hticks, -⟩ := endAt_tail hl' hr hok
    have htime : r.time = 0 + r.layout.ticks r.written.toList := hr.time
    rw [((Replay.start l).moved_words _).time, ← hticks, htime, hlayout]
    simp [Replay.start]

/-- A recording with a refused and a skipped vector around an overflow mark, made to last. -/
theorem replay_recorded_mark :
    let requests : List Request :=
      [.announce 5 3, .announce 7 9, .announce 4 3, .markOverflow 42, .announce 8000000 1]
    let r := (start .standard).handleAll requests
    Layout.standard.Faithful ∧
      ((Replay.start .standard).words r.written.toList).1 =
        [⟨5, 3⟩, ⟨10, 0⟩, ⟨2621465, 0x7FFFFFF⟩, ⟨2621470, 0⟩, ⟨8000000, 1⟩] ∧
      (∃ words, r.endAt 9000000 = .ok words) ∧
      ∀ words, r.endAt 9000000 = .ok words →
        ((Replay.start .standard).samplesOfWords words).getLast? = some ⟨9000000, 1⟩ := by
  intro requests r
  have hl : Layout.standard.Faithful := Layout.standard_faithful 5 (by decide)
  have h := replay_recorded .standard hl requests
  refine ⟨hl, h.2.1.2.trans (by decide +kernel), ((h.2.2 9000000).1).mpr (by decide +kernel),
    ?_⟩
  intro words hok
  rw [((h.2.2 9000000).2 words hok).1]
  decide +kernel

end AtaCapture.Recorder
