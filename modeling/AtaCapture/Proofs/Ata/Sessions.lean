import AtaCapture.Ata.Session
import AtaCapture.Proofs.Ata.Bus
import AtaCapture.Proofs.Word.RoundTrip

/-!
From a session to its events. A session rests and makes accesses, and now and then the recorder
loses samples. Its words show the levels that the session has put on the bus, those are what a
replay gives to the monitor, and the monitor comes back to rest behind every item of the
session. So nothing of the session is lost and nothing is added, whatever the monitor calls the
registers it sees.
-/

namespace AtaCapture

theorem Sample.scattered_range' (s : Sample) (offset width : Nat) :
    s.scattered (List.range' offset width) = s.levels / 2 ^ offset % 2 ^ width := by
  induction width generalizing offset with
  | zero => simp [Nat.mod_one]
  | succ width ih =>
      have hbit : (s.level offset).toNat = s.levels / 2 ^ offset % 2 := Nat.toNat_testBit ..
      rw [List.range'_succ, scattered_cons, ih, hbit, Nat.pow_succ' (n := width), Nat.mod_mul,
        Nat.pow_succ, Nat.div_div_eq_div_mul]

namespace Ata

/-! ### Levels of the bus -/

def Idle (levels : Nat) : Prop := levels.testBit 0 = true ∧ levels.testBit 1 = true

variable {address : BitVec 8} {data : BitVec 16} {direction : Direction} {strobes time : Nat}

theorem idle_restLevels (address : BitVec 8) (data : BitVec 16) :
    Idle (restLevels address data) := by
  constructor
  · simp [restLevels]
  · simp only [restLevels, Nat.testBit_or]
    rfl

theorem level_pulseLevels (time : Nat) (direction : Direction) (address : BitVec 8)
    (data : BitVec 16) :
    (Sample.mk time (pulseLevels direction address data)).level Lines.recorder.iow =
        decide (direction = .read) ∧
      (Sample.mk time (pulseLevels direction address data)).level Lines.recorder.ior =
        decide (direction = .write) := by
  cases direction <;>
    simp [Sample.level, Lines.recorder, pulseLevels, Nat.testBit_or] <;>
    decide

theorem ne_zero_of_idle {levels : Nat} (h : Idle levels) : levels ≠ 0 := by
  rintro rfl
  cases h.1

theorem ne_pulseLevels_of_idle {levels : Nat} (h : Idle levels) :
    levels ≠ pulseLevels direction address data := by
  rintro rfl
  obtain ⟨hiow, hior⟩ := level_pulseLevels 0 direction address data
  cases direction
  · exact Bool.false_ne_true (hior.symm.trans h.2)
  · exact Bool.false_ne_true (hiow.symm.trans h.1)

/-- The lines of the bus are all below those that the recorder has in a word. -/
theorem levels_le (hstrobes : strobes < 4) (address : BitVec 8) (data : BitVec 16) :
    strobes ||| address.toNat <<< 2 ||| data.toNat <<< 8 ≤ Layout.standard.maxPayload := by
  have haddress := address.isLt
  have hdata := data.isLt
  have hlt : strobes ||| address.toNat <<< 2 ||| data.toNat <<< 8 < 2 ^ 24 := by
    refine Nat.or_lt_two_pow (Nat.or_lt_two_pow (by omega) ?_) ?_
    · rw [Nat.shiftLeft_eq]
      omega
    · rw [Nat.shiftLeft_eq]
      omega
  have hmax : Layout.standard.maxPayload = 2 ^ 27 - 1 := rfl
  omega

/-- The fields of the bus do not overlap. -/
theorem levels_eq (hstrobes : strobes < 4) (haddress : address.toNat < 32) (data : BitVec 16) :
    strobes ||| address.toNat <<< 2 ||| data.toNat <<< 8 =
      strobes + 4 * address.toNat + 256 * data.toNat := by
  have hlow : strobes ||| address.toNat <<< 2 = strobes + 4 * address.toNat := by
    rw [Nat.or_comm, ← Nat.shiftLeft_add_eq_or_of_lt (by omega), Nat.shiftLeft_eq]
    omega
  rw [hlow, Nat.or_comm, ← Nat.shiftLeft_add_eq_or_of_lt (by omega), Nat.shiftLeft_eq]
  omega

theorem restLevels_le (address : BitVec 8) (data : BitVec 16) :
    restLevels address data ≤ Layout.standard.maxPayload := levels_le (by decide) address data

theorem pulseLevels_le (direction : Direction) (address : BitVec 8) (data : BitVec 16) :
    pulseLevels direction address data ≤ Layout.standard.maxPayload := by
  cases direction
  · exact levels_le (by decide) address data
  · exact levels_le (by decide) address data

/-- What is read from the bus during an access is what the access has put there. -/
theorem fields_pulseLevels (time : Nat) (direction : Direction) (haddress : address.toNat < 32)
    (data : BitVec 16) :
    Lines.recorder.addressOf ⟨time, pulseLevels direction address data⟩ = address ∧
      Lines.recorder.dataOf ⟨time, pulseLevels direction address data⟩ = data := by
  have hdata := data.isLt
  have hfields : ∃ strobes, strobes < 4 ∧
      pulseLevels direction address data = strobes + 4 * address.toNat + 256 * data.toNat := by
    cases direction
    · exact ⟨1, by decide, levels_eq (by decide) haddress data⟩
    · exact ⟨2, by decide, levels_eq (by decide) haddress data⟩
  obtain ⟨strobes, hstrobes, hfields⟩ := hfields
  constructor
  · have hscattered :=
      (Sample.mk time (pulseLevels direction address data)).scattered_range' 2 5
    apply BitVec.eq_of_toNat_eq
    rw [Lines.addressOf, show Lines.recorder.address = List.range' 2 5 from rfl, hscattered,
      hfields, BitVec.toNat_ofNat]
    dsimp only
    omega
  · have hscattered :=
      (Sample.mk time (pulseLevels direction address data)).scattered_range' 8 16
    apply BitVec.eq_of_toNat_eq
    rw [Lines.dataOf, show Lines.recorder.data = List.range' 8 16 from rfl, hscattered,
      hfields, BitVec.toNat_ofNat]
    dsimp only
    omega

/-! ### Sessions -/

inductive SessionItem where
  | access (x : Access)
  /-- The recorder loses samples, and goes on when the bus rests. -/
  | loss (millis resume : Nat) (address : BitVec 8) (data : BitVec 16)
  deriving DecidableEq, Repr

/-- The ticks that the mark of a loss covers, three units and three of the longest pauses. -/
def lossSpan : Nat := 7864365

namespace SessionItem

def steps : SessionItem → List SessionStep
  | .access x => [.access x]
  | .loss millis resume address data => [.loss millis, .rest resume address data]

def stop : SessionItem → Nat
  | .access x => x.stop
  | .loss _ resume _ _ => resume

def Timed (reached : Nat) : SessionItem → Prop
  | .access x =>
    x.address.toNat < 32 ∧ reached < x.start ∧ 5 ∣ x.start ∧ x.start < x.stop ∧ 5 ∣ x.stop
  | .loss _ resume _ _ => reached + lossSpan < resume ∧ 5 ∣ resume

instance decidableTimed (reached : Nat) : (item : SessionItem) → Decidable (item.Timed reached)
  | .access x =>
    inferInstanceAs (Decidable (x.address.toNat < 32 ∧ reached < x.start ∧ 5 ∣ x.start ∧
      x.start < x.stop ∧ 5 ∣ x.stop))
  | .loss _ resume _ _ =>
      inferInstanceAs (Decidable (reached + lossSpan < resume ∧ 5 ∣ resume))

end SessionItem

def TimedAll (reached : Nat) : List SessionItem → Prop
  | [] => True
  | item :: items => item.Timed reached ∧ TimedAll item.stop items

instance decidableTimedAll (reached : Nat) :
    (items : List SessionItem) → Decidable (TimedAll reached items)
  | [] => inferInstanceAs (Decidable True)
  | item :: items =>
    have := decidableTimedAll item.stop items
    inferInstanceAs (Decidable (item.Timed reached ∧ TimedAll item.stop items))

/-- The access as the bus shows it. Only the data register has more than the low byte. -/
def Access.shown (x : Access) : Access :=
  { x with value := if x.address = Register.data then x.value else x.value &&& 0xFF }

/-- What is to be reported of the rest of a session that lasts until `stop`: of an access
itself and what it does to the protocol activity, of a loss the two gaps around the moment when
all lines of the mark are high, and in the end what is still under way. -/
def report (names : Names) (stop : Nat) (a : Activity) (reached : Nat) :
    List SessionItem → List Event
  | [] => (a.finish names (max stop reached)).1
  | .access x :: items =>
    x.shown.event names :: (a.step names x.shown).1 ++
      report names stop (a.step names x.shown).2 x.stop items
  | .loss _ resume _ _ :: items =>
    { start := reached + 5, stop := reached + 2621460, content := .overflow } ::
      { start := reached + 2621465, stop := resume, content := .overflow } ::
        report names stop a resume items

/-! ### The samples of a session -/

namespace SessionItem

def last : SessionItem → Sample
  | .access x => ⟨x.stop, restLevels x.address x.value⟩
  | .loss _ resume address data => ⟨resume, restLevels address data⟩

def leading (reached : Nat) : SessionItem → List Sample
  | .access x => [⟨x.start, pulseLevels x.direction x.address x.value⟩]
  | .loss .. =>
    [⟨reached + 5, 0⟩, ⟨reached + 2621460, Layout.standard.maxPayload⟩, ⟨reached + 2621465, 0⟩]

theorem time_last (item : SessionItem) : item.last.time = item.stop := by
  cases item <;> rfl

theorem idle_last (item : SessionItem) : Idle item.last.levels := by
  cases item <;> exact idle_restLevels ..

end SessionItem

def samplesOf (reached : Nat) : List SessionItem → List Sample
  | [] => []
  | item :: items => item.leading reached ++ item.last :: samplesOf item.stop items

def lastSample (p : Sample) : List SessionItem → Sample
  | [] => p
  | item :: items => lastSample item.last items

theorem getLast?_samplesOf (p : Sample) (items : List SessionItem) :
    (p :: samplesOf p.time items).getLast? = some (lastSample p items) := by
  induction items generalizing p with
  | nil => rfl
  | cons item items ih =>
      have hlast := ih item.last
      rw [item.time_last] at hlast
      rw [samplesOf, lastSample, ← hlast, ← List.cons_append, List.getLast?_append, hlast]
      rfl

theorem changes_samplesOf {p : Sample} (hp : Idle p.levels) (items : List SessionItem) :
    Sample.changes (some p.levels) (samplesOf p.time items) = samplesOf p.time items := by
  induction items generalizing p with
  | nil => rfl
  | cons item items ih =>
      have hlast := ih item.idle_last
      have hrest := item.idle_last
      rw [item.time_last] at hlast
      rw [samplesOf]
      cases item with
      | access x =>
          have hbefore : p.levels ≠ pulseLevels x.direction x.address x.value :=
            ne_pulseLevels_of_idle hp
          have hbehind :
              pulseLevels x.direction x.address x.value ≠ restLevels x.address x.value :=
            (ne_pulseLevels_of_idle hrest).symm
          simpa [SessionItem.leading, SessionItem.last, Sample.changes, hbefore, hbehind]
              using hlast
      | loss millis resume address data =>
          have hbefore : p.levels ≠ 0 := ne_zero_of_idle hp
          have hbehind : 0 ≠ restLevels address data := (ne_zero_of_idle hrest).symm
          have hmark : Layout.standard.maxPayload ≠ 0 := by decide
          simpa [SessionItem.leading, SessionItem.last, Sample.changes, hbefore, hbehind,
            hmark, hmark.symm] using hlast

/-! ### Recording a session -/

/-- The milliseconds in the last word of a mark are more than any pause, so the word is the
longest. -/
theorem read_millis (millis : Nat) :
    Layout.standard.read (BitVec.ofNat 32 (0xFC000000 + millis % 2 ^ 24)) =
      (524290, none) := by
  have hmillis := Nat.mod_lt millis (Nat.two_pow_pos 24)
  have hword : (BitVec.ofNat 32 (0xFC000000 + millis % 2 ^ 24)).toNat =
      0xFC000000 + millis % 2 ^ 24 := by
    rw [BitVec.toNat_ofNat]
    omega
  have hcode : Layout.standard.delayCode (BitVec.ofNat 32 (0xFC000000 + millis % 2 ^ 24)) =
      Layout.standard.idleCode := by
    show _ / 2 ^ 27 = 31
    rw [hword]
    omega
  have hlong : ¬ Layout.standard.payload (BitVec.ofNat 32 (0xFC000000 + millis % 2 ^ 24)) <
      Layout.standard.idleLimit := by
    show ¬ _ % 2 ^ 27 < 0x7FFFF
    rw [hword]
    omega
  rw [Layout.read, if_neg (not_not_intro hcode), if_neg hlong]
  rfl

theorem map_read_overflowMark (millis : Nat) :
    (Recorder.overflowMark millis).map Layout.standard.read =
      [(1, some 0), (524290, none), (1, some Layout.standard.maxPayload), (1, some 0),
        (524290, none), (524290, none)] := by
  rw [Recorder.overflowMark]
  simp only [List.map_cons, List.map_nil, read_millis]
  rfl

theorem ticks_overflowMark (millis : Nat) :
    Layout.standard.ticks (Recorder.overflowMark millis) = lossSpan := by
  rw [Layout.ticks_of_map_read (map_read_overflowMark millis)]
  rfl

theorem snapshots_overflowMark (time millis : Nat) :
    Layout.standard.snapshots time (Recorder.overflowMark millis) =
      [⟨time + 5, 0⟩, ⟨time + 2621460, Layout.standard.maxPayload⟩, ⟨time + 2621465, 0⟩] := by
  have hread := map_read_overflowMark millis
  rw [Recorder.overflowMark] at hread ⊢
  simp only [List.map_cons, List.map_nil, List.cons.injEq, and_true] at hread
  obtain ⟨hlow, hpause, hhigh, -, -, hlast⟩ := hread
  have htick : Layout.standard.tick = 5 := rfl
  simp only [Layout.snapshots, Layout.duration, hlow, hpause, hhigh, hlast, htick,
    Option.map_some, Option.map_none, Option.toList_some, Option.toList_none, List.nil_append,
    List.cons_append, Nat.add_assoc, Nat.reduceMul, Nat.reduceAdd]

def Records (r r' : Recorder) (samples : List Sample) : Prop :=
  ∃ words, Recorder.Extended r r' words ∧ r.layout.snapshots r.time words = samples

theorem Records.trans {a b c : Recorder} {u v : List Sample} (hab : Records a b u)
    (hbc : Records b c v) : Records a c (u ++ v) := by
  obtain ⟨first, hfirst, rfl⟩ := hab
  obtain ⟨rest, hrest, rfl⟩ := hbc
  refine ⟨first ++ rest, hfirst.trans hrest, ?_⟩
  rw [Layout.snapshots_append, hfirst.layout, hfirst.time]

/-- The recorder has reached the time of a sample and has announced its levels last. -/
structure Reached (r : Recorder) (p : Sample) : Prop where
  layout : r.layout = .standard
  consistent : r.Consistent
  time : r.time = p.time
  levels : r.levels = some p.levels

theorem faithful_of_standard {r : Recorder} (h : r.layout = .standard) : r.layout.Faithful :=
  h ▸ Layout.standard_faithful 5 (by decide)

theorem announce_records {r : Recorder} {q : Sample} (hlayout : r.layout = .standard)
    (hr : r.Consistent) (hfits : q.levels ≤ Layout.standard.maxPayload)
    (hchanged : r.levels ≠ some q.levels) (hlater : r.time < q.time) (htick : 5 ∣ q.time) :
    ∃ r', r.announce q.time q.levels = .ok r' ∧ Records r r' [q] ∧ Reached r' q := by
  obtain ⟨r', words, hok, hwords, hshown, htime⟩ :=
    Recorder.announce_of_changed (faithful_of_standard hlayout) hr
      (hlayout ▸ hfits) hchanged hlater
      (hlayout ▸ htick)
  refine ⟨r', hok, ⟨words, hwords, hshown⟩, hwords.layout.trans hlayout, hr.extended hwords,
    htime, ?_⟩
  rw [hwords.levels, hshown]
  rfl

namespace Reached

variable {r : Recorder} {p : Sample} (hr : Reached r p)

include hr

theorem announce {q : Sample} (hfits : q.levels ≤ Layout.standard.maxPayload)
    (hchanged : p.levels ≠ q.levels) (hlater : p.time < q.time) (htick : 5 ∣ q.time) :
    ∃ r', r.announce q.time q.levels = .ok r' ∧ Records r r' [q] ∧ Reached r' q := by
  refine announce_records hr.layout hr.consistent hfits ?_ (hr.time ▸ hlater) htick
  rw [hr.levels]
  intro hsame
  exact hchanged (Option.some.inj hsame)

theorem markOverflow (millis : Nat) :
    Records r (r.markOverflow millis) [⟨p.time + 5, 0⟩,
        ⟨p.time + 2621460, Layout.standard.maxPayload⟩, ⟨p.time + 2621465, 0⟩] ∧
      Reached (r.markOverflow millis) ⟨p.time + lossSpan, 0⟩ := by
  have hmark : Recorder.Extended r (r.markOverflow millis) (Recorder.overflowMark millis) :=
    r.extended_foldl_append (Recorder.overflowMark millis)
  have hshown := snapshots_overflowMark p.time millis
  rw [← hr.layout, ← hr.time] at hshown
  refine ⟨⟨_, hmark, by rw [hshown, hr.time, hr.layout]⟩, hmark.layout.trans hr.layout,
    hr.consistent.extended hmark, ?_, ?_⟩
  · rw [hmark.time, hr.layout, ticks_overflowMark, hr.time]
  · rw [hmark.levels, hshown]
    rfl

end Reached

theorem recordAll_append (r : Recorder) (a b : List SessionStep) :
    recordAll r (a ++ b) = (recordAll r a).bind fun r' => recordAll r' b := by
  rw [recordAll, List.foldlM_append]
  rfl

theorem record_item {r : Recorder} {p : Sample} {item : SessionItem} (hr : Reached r p)
    (hp : Idle p.levels) (hitem : item.Timed p.time) :
    ∃ r', recordAll r item.steps = .ok r' ∧
      Records r r' (item.leading p.time ++ [item.last]) ∧ Reached r' item.last := by
  cases item with
  | access x =>
      obtain ⟨-, hstart, hstartTick, hstop, hstopTick⟩ := hitem
      -- The strobe falls, and rises again.
      obtain ⟨r₁, hok₁, hrecords₁, hr₁⟩ :=
        hr.announce (q := ⟨x.start, pulseLevels x.direction x.address x.value⟩)
          (pulseLevels_le ..) (ne_pulseLevels_of_idle hp) hstart hstartTick
      obtain ⟨r₂, hok₂, hrecords₂, hr₂⟩ :=
        hr₁.announce (q := (SessionItem.access x).last) (restLevels_le ..)
          (ne_pulseLevels_of_idle (idle_restLevels ..)).symm hstop hstopTick
      refine ⟨r₂, ?_, hrecords₁.trans hrecords₂, hr₂⟩
      rw [SessionItem.last] at hok₂
      simp only [SessionItem.steps, recordAll, List.foldlM_cons, List.foldlM_nil,
        SessionStep.record, hok₁, hok₂, bind, Except.bind, pure, Except.pure]
  | loss millis resume address data =>
      obtain ⟨hresume, htick⟩ := hitem
      obtain ⟨hrecords₁, hr₁⟩ := hr.markOverflow millis
      obtain ⟨r₂, hok₂, hrecords₂, hr₂⟩ :=
        hr₁.announce (q := (SessionItem.loss millis resume address data).last)
          (restLevels_le ..) (ne_zero_of_idle (idle_restLevels ..)).symm hresume htick
      refine ⟨r₂, ?_, hrecords₁.trans hrecords₂, hr₂⟩
      rw [SessionItem.last] at hok₂
      simp only [SessionItem.steps, recordAll, List.foldlM_cons, List.foldlM_nil,
        SessionStep.record, hok₂, bind, Except.bind, pure, Except.pure]

theorem record_items {r : Recorder} {p : Sample} (hr : Reached r p) (hp : Idle p.levels)
    {items : List SessionItem} (hitems : TimedAll p.time items) :
    ∃ r', recordAll r (items.flatMap SessionItem.steps) = .ok r' ∧
      Records r r' (samplesOf p.time items) ∧ Reached r' (lastSample p items) := by
  induction items generalizing r p with
  | nil => exact ⟨r, rfl, ⟨[], .refl r, rfl⟩, hr⟩
  | cons item items ih =>
      obtain ⟨hitem, hitems⟩ := hitems
      obtain ⟨r', hok, hfirst, hr'⟩ := record_item hr hp hitem
      rw [← item.time_last] at hitems
      obtain ⟨r'', hok', hrest, hr''⟩ := ih hr' item.idle_last hitems
      refine ⟨r'', ?_, ?_, hr''⟩
      · rw [List.flatMap_cons, recordAll_append, hok]
        exact hok'
      · have hall := hfirst.trans hrest
        rw [List.append_assoc, item.time_last] at hall
        exact hall

/-! ### Reading a session -/

theorem isAlive_of_idle {levels : Nat} (h : Idle levels) (time : Nat) :
    Lines.recorder.isAlive ⟨time, levels⟩ := by
  rw [Lines.isAlive, Bool.or_eq_true]
  exact .inl h.1

theorem changes_pulseLevels {levels : Nat} (h : Idle levels) :
    Cursor.changes Lines.recorder.watched levels (pulseLevels direction address data) := by
  obtain ⟨hiow, hior⟩ := level_pulseLevels 0 direction address data
  cases direction with
  | read =>
      refine Lines.changes_of_differs (show Lines.recorder.ior ∈ _ by simp) ?_
      show levels.testBit 1 ≠ (pulseLevels .read address data).testBit 1
      rw [h.2, show (pulseLevels .read address data).testBit 1 = false from hior]
      decide
  | write =>
      refine Lines.changes_of_differs (show Lines.recorder.iow ∈ _ by simp) ?_
      show levels.testBit 0 ≠ (pulseLevels .write address data).testBit 0
      rw [h.1, show (pulseLevels .write address data).testBit 0 = false from hiow]
      decide

theorem isDead_pulseLevels (time : Nat) :
    Lines.recorder.isDead ⟨time, pulseLevels direction address data⟩ = false := by
  refine Bool.eq_false_iff.mpr fun hdead => ?_
  have halive := Lines.not_isAlive_of_isDead hdead
  obtain ⟨hiow, hior⟩ := level_pulseLevels time direction address data
  rw [Lines.isAlive, hiow, hior] at halive
  cases direction <;> cases halive

namespace Automaton

variable {m : Monitor} {a : Account} {p : Sample} (hm : m.lines = .recorder)

include hm

theorem step_pulse (ha : a.phase = .rest p) (hp : Idle p.levels) (next : Option Nat) :
    step m a ⟨time, pulseLevels direction address data⟩ next =
      ([], { a with
        phase := .pulse direction time ⟨time, pulseLevels direction address data⟩ }) := by
  obtain ⟨hiow, hior⟩ := level_pulseLevels time direction address data
  rw [step_changed ha (by rw [hm]; exact changes_pulseLevels hp), awake, hm,
    isDead_pulseLevels, hiow, hior]
  cases direction <;> rfl

theorem step_released {since : Nat} {latched : Sample}
    (ha : a.phase = .pulse direction since latched)
    {levels : Nat} (h : Idle levels) (next : Option Nat) :
    step m a ⟨time, levels⟩ next =
      complete m a (m.lines.access direction since time latched) ⟨time, levels⟩ := by
  refine step_risen ha ?_
  rw [hm]
  cases direction
  · exact h.2
  · exact h.1

end Automaton

/-- The access that the automaton sees in the samples of an access. -/
theorem access_pulseLevels {x : Access} (haddress : x.address.toNat < 32) :
    Lines.recorder.access x.direction x.start x.stop
      ⟨x.start, pulseLevels x.direction x.address x.value⟩ = x.shown := by
  obtain ⟨haddressOf, hdataOf⟩ := fields_pulseLevels x.start x.direction haddress x.value
  rw [Lines.access, haddressOf, hdataOf]
  rfl

section Reading

open Automaton

variable {m : Monitor} {a : Account} {p : Sample} {items : List SessionItem}
  (hm : m.lines = .recorder)

include hm

theorem read_access (ha : a.phase = .rest p) (hp : Idle p.levels) {x : Access}
    (haddress : x.address.toNat < 32) (more : List Sample) :
    ∃ a', a'.phase = .rest (SessionItem.access x).last ∧
      a'.activity = (a.activity.step m.names x.shown).2 ∧
      (read m a p.time (⟨x.start, pulseLevels x.direction x.address x.value⟩ ::
          (SessionItem.access x).last :: more)).1 =
        x.shown.event m.names :: (a.activity.step m.names x.shown).1 ++
          (read m a' x.stop more).1 := by
  rw [fst_read_cons, step_pulse hm ha hp, fst_read_cons, SessionItem.last,
    step_released hm rfl (idle_restLevels ..), hm, access_pulseLevels haddress]
  exact ⟨_, rfl, rfl, rfl⟩

omit hm in
theorem read_short_gap {s t : Sample} (ha : a.phase = .rest p) (hp : m.lines.isAlive p)
    (hs : m.lines.isDead s) (ht : m.lines.isAlive t) (more : List Sample) :
    ∃ a', a'.phase = .rest t ∧ a'.activity = a.activity ∧
      (read m a p.time (s :: t :: more)).1 =
        { start := s.time, stop := t.time, content := .overflow } ::
          (read m a' t.time more).1 := by
  rw [fst_read_cons, step_dead ha hp hs, fst_read_cons, step_resumed rfl ht]
  exact ⟨{ a with
    phase := .rest t
    tally := { a.tally with overflows := a.tally.overflows + 1 } }, rfl, rfl, rfl⟩

theorem read_loss (ha : a.phase = .rest p) (hp : Idle p.levels) (reached millis resume : Nat)
    (address : BitVec 8) (data : BitVec 16) (more : List Sample) :
    ∃ a', a'.phase = .rest ⟨resume, restLevels address data⟩ ∧ a'.activity = a.activity ∧
      (read m a p.time (SessionItem.leading reached (.loss millis resume address data) ++
          ⟨resume, restLevels address data⟩ :: more)).1 =
        { start := reached + 5, stop := reached + 2621460, content := .overflow } ::
          { start := reached + 2621465, stop := resume, content := .overflow } ::
            (read m a' resume more).1 := by
  have hdead (time : Nat) : m.lines.isDead ⟨time, 0⟩ := by
    rw [hm]
    exact decide_eq_true (Nat.zero_and _)
  have halive {levels : Nat} (h : Idle levels) (time : Nat) :
      m.lines.isAlive ⟨time, levels⟩ := by
    rw [hm]
    exact isAlive_of_idle h time
  have hmark : Idle Layout.standard.maxPayload := ⟨by decide, by decide⟩
  obtain ⟨a₁, ha₁, hactivity₁, hread₁⟩ := read_short_gap ha (halive hp p.time)
    (hdead (reached + 5)) (halive hmark (reached + 2621460))
    (⟨reached + 2621465, 0⟩ :: ⟨resume, restLevels address data⟩ :: more)
  obtain ⟨a₂, ha₂, hactivity₂, hread₂⟩ := read_short_gap ha₁ (halive hmark (reached + 2621460))
    (hdead (reached + 2621465)) (halive (idle_restLevels address data) resume) more
  refine ⟨a₂, ha₂, hactivity₂.trans hactivity₁, ?_⟩
  rw [← hread₂]
  exact hread₁

/-- The last sample, repeated at the end if the recording goes on behind it. -/
def repeated (q : Sample) (stop : Nat) : List Sample :=
  if q.time < stop then [{ q with time := stop }] else []

omit hm in
theorem heldUntil_eq {samples : List Sample} {q : Sample} (h : samples.getLast? = some q)
    (stop : Nat) : Sample.heldUntil samples (max stop q.time) =
      samples ++ repeated q stop := by
  rw [Sample.heldUntil, h, repeated]
  dsimp only [Option.getD_some]
  by_cases hlater : q.time < stop
  · rw [Nat.max_eq_left (Nat.le_of_lt hlater), if_pos hlater, if_pos hlater]
  · rw [Nat.max_eq_right (Nat.not_lt.mp hlater), if_neg (Nat.lt_irrefl _), if_neg hlater,
      List.append_nil]

theorem read_repeated {q : Sample} (ha : a.phase = .rest q) (stop : Nat) :
    (read m a q.time (repeated q stop)).1 =
      (a.activity.finish m.names (max stop q.time)).1 := by
  have hnil {a : Account} {q : Sample} (ha : a.phase = .rest q) (time : Nat) :
      (read m a time []).1 = (a.activity.finish m.names time).1 := by
    rw [Automaton.read, cutOff, ha]
    rfl
  rw [repeated]
  split
  · rename_i hlater
    -- The repeated sample changes no line, so it only moves the end of the capture.
    have hsame : Cursor.changes m.lines.watched q.levels q.levels = false := by
      rw [hm, Cursor.changes, Nat.xor_self, Nat.zero_and]
      decide
    have hstep : step m a ⟨stop, q.levels⟩ none =
        ([], { a with phase := .rest ⟨stop, q.levels⟩ }) := step_unchanged ha hsame
    rw [Nat.max_eq_left (Nat.le_of_lt hlater), fst_read_cons, List.head?_nil, Option.map_none,
      hstep]
    exact hnil (a := { a with phase := .rest ⟨stop, q.levels⟩ }) rfl stop
  · rename_i hearly
    rw [Nat.max_eq_right (Nat.not_lt.mp hearly)]
    exact hnil ha q.time

theorem read_items (ha : a.phase = .rest p) (hp : Idle p.levels)
    (hitems : TimedAll p.time items) (stop : Nat) :
    (read m a p.time (samplesOf p.time items ++ repeated (lastSample p items) stop)).1 =
      report m.names stop a.activity p.time items := by
  induction items generalizing a p with
  | nil => exact read_repeated hm ha stop
  | cons item items ih =>
      -- Every item begins and ends with the bus at rest, so the others are read by the
      -- hypothesis.
      obtain ⟨hitem, hitems⟩ := hitems
      rw [← item.time_last] at hitems
      cases item with
      | access x =>
          obtain ⟨a', ha', hactivity, hread⟩ := read_access hm ha hp hitem.1
            (samplesOf x.stop items ++
              repeated (lastSample (SessionItem.access x).last items) stop)
          have hrest : (Automaton.read m a' x.stop (samplesOf x.stop items ++
              repeated (lastSample (SessionItem.access x).last items) stop)).1 =
                report m.names stop a'.activity x.stop items :=
            ih ha' (idle_restLevels ..) hitems
          rw [report, ← hactivity, ← hrest]
          exact hread
      | loss millis resume address data =>
          obtain ⟨a', ha', hactivity, hread⟩ :=
            read_loss hm ha hp p.time millis resume address data
            (samplesOf resume items ++
              repeated (lastSample ⟨resume, restLevels address data⟩ items) stop)
          have hrest : (Automaton.read m a' resume (samplesOf resume items ++
              repeated (lastSample ⟨resume, restLevels address data⟩ items) stop)).1 =
                report m.names stop a'.activity resume items :=
            ih ha' (idle_restLevels ..) hitems
          rw [report, ← hactivity, ← hrest, samplesOf, List.append_assoc]
          exact hread

end Reading

/-! ### From the session to its events -/

/-- A session as it is recorded: the bus rests from a time on, and then things happen. -/
def session (time : Nat) (address : BitVec 8) (data : BitVec 16) (items : List SessionItem) :
    List SessionStep :=
  .rest time address data :: items.flatMap SessionItem.steps

theorem decode_bytes (words : List Word) :
    Replay.decode (Word.bytes words) = (Replay.start .standard).samplesOfWords words := by
  have hcut := Word.cut_bytes_append words []
  have hnone : Word.cut [] = ([], []) := rfl
  rw [List.append_nil, hnone, List.append_nil] at hcut
  rw [Replay.decode, Replay.chunk, show (Replay.start .standard).carry = [] from rfl,
    List.nil_append, hcut]
  rfl

/-- A session is recorded, and its recording shows the bus at rest before and after every
item. -/
theorem record_session (address : BitVec 8) (data : BitVec 16) (hpos : 0 < time)
    (htick : 5 ∣ time) {items : List SessionItem} (hitems : TimedAll time items) :
    ∃ r, recordAll (.start .standard) (session time address data items) = .ok r ∧
      Reached r (lastSample ⟨time, restLevels address data⟩ items) ∧
      Layout.standard.snapshots 0 r.written.toList =
        ⟨time, restLevels address data⟩ :: samplesOf time items := by
  obtain ⟨r₁, hok₁, hrecords₁, hr₁⟩ :=
    announce_records (r := .start .standard) (q := ⟨time, restLevels address data⟩) rfl
      (Recorder.consistent_start _) (restLevels_le address data)
      (by simp [Recorder.start]) hpos htick
  obtain ⟨r₂, hok₂, hrecords₂, hr₂⟩ := record_items hr₁ (idle_restLevels ..) hitems
  refine ⟨r₂, ?_, hr₂, ?_⟩
  · rw [session, recordAll, List.foldlM_cons, SessionStep.record, hok₁]
    exact hok₂
  · obtain ⟨words, hwords, hshown⟩ := hrecords₁.trans hrecords₂
    rw [hwords.written]
    exact hshown

theorem decode_session {r : Recorder} {p : Sample} {items : List SessionItem}
    (hp : Idle p.levels) (hr : Reached r (lastSample p items))
    (hshown : Layout.standard.snapshots 0 r.written.toList = p :: samplesOf p.time items)
    {stop : Nat} {words : List Word} (hwords : r.endAt stop = .ok words) :
    Replay.decode (Word.bytes words) =
      p :: (samplesOf p.time items ++ repeated (lastSample p items) stop) := by
  -- Every sample of a session is a change, so a replay gives them all.
  have hheld :=
    Recorder.samplesOfWords_endAt (faithful_of_standard hr.layout) hr.consistent hwords
  have hchanges : Sample.changes none (p :: samplesOf p.time items) =
      p :: samplesOf p.time items :=
    congrArg (p :: ·) (changes_samplesOf hp items)
  rw [hr.layout, hshown, hchanges, hr.time, heldUntil_eq (getLast?_samplesOf p items)] at hheld
  rw [decode_bytes]
  exact hheld

/-- A session comes back from its recording. It is recorded without fault, and so are its bytes
up to any end that is on a tick or is reached already. What a monitor finds in them, with the
recorder's pinout in either form, is what is to be reported of the session and nothing else. -/
theorem events_of_session (time : Nat) (address : BitVec 8) (data : BitVec 16)
    (items : List SessionItem) (hpos : 0 < time) (htick : 5 ∣ time)
    (hitems : TimedAll time items) :
    ∃ r, recordAll (.start .standard) (session time address data items) = .ok r ∧
      ∀ stop, stop ≤ r.time ∨ 5 ∣ stop →
        ∃ bytes, r.bytesUntil stop = .ok bytes ∧
          ∀ pinout ∈ [Pinout.flat, Pinout.grouped],
            ∃ lines, Lines.ofPinout pinout = .ok lines ∧
              ∀ m : Monitor, m.lines = lines →
                m.events (Replay.decode bytes) = report m.names stop .idle time items := by
  obtain ⟨r, hok, hr, hshown⟩ := record_session address data hpos htick hitems
  refine ⟨r, hok, ?_⟩
  intro stop hstop
  have hunit : r.layout.tick = 5 := by
    rw [hr.layout]
    rfl
  obtain ⟨words, hwords⟩ :=
    (Recorder.endAt_ok_iff (faithful_of_standard hr.layout)).mpr (hunit.symm ▸ hstop)
  refine ⟨Word.bytes words, by rw [Recorder.bytesUntil, hwords]; rfl, ?_⟩
  have hsamples := decode_session (idle_restLevels address data) hr hshown hwords
  intro pinout hpinout
  refine ⟨.recorder, ?_, ?_⟩
  · rw [List.mem_cons, List.mem_singleton] at hpinout
    rcases hpinout with rfl | rfl
    · exact Lines.ofPinout_flat
    · exact Lines.ofPinout_grouped
  · intro m hm
    rw [Monitor.events_eq, hsamples, Automaton.fst_read_cons]
    exact read_items hm rfl (idle_restLevels ..) hitems stop

/-- A write to the device register, a loss and a poll of the status come back. -/
theorem events_of_session_loss :
    let items : List SessionItem :=
      [.access ⟨100, 140, .write, Register.device, 0x10⟩, .loss 42 8000000 0 0,
        .access ⟨8000100, 8000140, .read, Register.command, 0x3350⟩]
    TimedAll 5 items ∧
      ∃ r, recordAll (.start .standard) (session 5 0 0 items) = .ok r ∧
        ∃ bytes, r.bytesUntil 9000000 = .ok bytes ∧
          ∃ lines, Lines.ofPinout .grouped = .ok lines ∧
            Monitor.events { lines } (Replay.decode bytes) =
              [⟨100, 140, .registerWrite 0x16 (some "DEVICE") 0x10⟩, ⟨145, 2621600, .overflow⟩,
                ⟨2621605, 8000000, .overflow⟩,
                ⟨8000100, 8000140, .registerRead 0x17 (some "STATUS") 0x50⟩,
                ⟨8000100, 9000000, .status 0x50⟩, ⟨100, 9000000, .selection 1⟩] := by
  intro items
  have hitems : TimedAll 5 items := by decide
  obtain ⟨r, hok, hstop⟩ := events_of_session 5 0 0 items (by decide) (by decide) hitems
  obtain ⟨bytes, hbytes, hpinout⟩ := hstop 9000000 (.inr (by decide))
  obtain ⟨lines, hlines, hevents⟩ := hpinout .grouped (by simp)
  refine ⟨hitems, r, hok, bytes, hbytes, lines, hlines, ?_⟩
  rw [hevents { lines } rfl]
  show report .standard 9000000 .idle 5 _ = _
  decide +kernel

end Ata

end AtaCapture
