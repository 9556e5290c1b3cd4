import AtaCapture.Proofs.Ata.Accounting
import AtaCapture.Proofs.Ata.Rows

/-!
Transfers, polls and selections, said without a state. A transfer is a longest row of accesses
to the data register in one direction. A poll is a longest row of status reads with one value
among the status reads, commands and selections. A selection is a longest row of writes to the
device register that select one device, among those writes; so selections follow each other
without a pause.
-/

namespace AtaCapture.Ata

/-! ### Rows of the three kinds -/

def Access.transferKey (x : Access) : Option Direction :=
  if x.isData then some x.direction else none

def Access.pollKey (x : Access) : Option (BitVec 8) :=
  if x.readsStatus then some x.low else none

/-- A status read, or what ends every poll. -/
def Access.concernsPoll (x : Access) : Bool := x.readsStatus || x.endsPacket

def Access.selectionKey (x : Access) : Option Nat := some x.selected

/-- The transfers among accesses that end at `stop`, one for every longest row of accesses to
the data register in one direction. -/
def transferSpans (stop : Nat) (xs : List Access) : List Event :=
  rowSpans Access.transferKey (fun direction words => .transfer direction words) stop xs

/-- The polls among accesses that end at `stop`, one for every longest row of status reads with
one value that no command and no selection interrupts. -/
def pollSpans (stop : Nat) (xs : List Access) : List Event :=
  rowSpans Access.pollKey (fun value _ => .status value) stop (xs.filter (·.concernsPoll))

/-- The selections among accesses that end at `stop`, one for every longest row of writes to
the device register that select one device. -/
def selectionSpans (stop : Nat) (xs : List Access) : List Event :=
  rowSpans Access.selectionKey (fun device _ => .selection device) stop
    (xs.filter (·.writesDevice))

theorem tile_selectionSpans (stop : Nat) (xs : List Access) :
    Tile (firstStart (·.writesDevice) stop xs) stop (selectionSpans stop xs) := by
  have hfirst : startOf stop (xs.filter (·.writesDevice)) =
      firstStart (·.writesDevice) stop xs := by
    rw [startOf, List.head?_filter]
    rfl
  have hrows := inRows_rowsBy Access.selectionKey (xs.filter (·.writesDevice))
  have htile :=
    tile_spansOfRows Access.selectionKey (fun device _ => .selection device) stop hrows
    fun _ _ => rfl
  rw [flatten_rowsBy, hfirst] at htile
  exact htile

/-- Successive selections are of different devices, of which there are two. -/
theorem isChain_selectionSpans (stop : Nat) (xs : List Access) :
    (selectionSpans stop xs).IsChain fun e f =>
      ∃ device < 2, e.content = .selection device ∧ f.content = .selection (1 - device) := by
  have hrows := inRows_rowsBy Access.selectionKey (xs.filter (·.writesDevice))
  refine (isChain_spansOfRows hrows fun _ _ => rfl).imp fun e f hturn => ?_
  obtain ⟨x, y, -, -, hdiffers, hx, hy⟩ := hturn
  have hlt (z : Access) : z.selected < 2 := Bool.toNat_lt _
  have hother : y.selected = 1 - x.selected := by
    have hne : x.selected ≠ y.selected := fun heq => hdiffers (congrArg some heq)
    have := hlt x
    have := hlt y
    omega
  refine ⟨x.selected, hlt x, (Option.some.inj hx).symm, ?_⟩
  rw [← hother]
  exact (Option.some.inj hy).symm

/-! ### What the parts follow -/

theorem OpenTransfer.endedBy_iff (x : Access) (t : OpenTransfer) :
    t.endedBy x ↔ x.transferKey ≠ some t.direction := by
  rw [endedBy, Access.transferKey]
  cases x.isData <;> simp [@eq_comm _ t.direction]

theorem OpenPoll.endedBy_iff {x : Access} (hconcerns : x.concernsPoll) (p : OpenPoll) :
    p.endedBy x ↔ x.pollKey ≠ some p.value := by
  rw [endedBy, Access.pollKey]
  cases hreads : x.readsStatus with
  | false =>
      rw [Access.concernsPoll, hreads, Bool.false_or] at hconcerns
      simp [hconcerns]
  | true => simp [@eq_comm _ p.value]

theorem OpenSelection.endedBy_iff {x : Access} (hwrites : x.writesDevice) (s : OpenSelection) :
    s.endedBy x ↔ x.selectionKey ≠ some s.device := by
  simp [endedBy, Access.selectionKey, hwrites, @eq_comm _ s.device]

theorem followsRows_transfer :
    FollowsRows stepTransfer OpenTransfer.event (fun _ => true) Access.transferKey
      (fun direction words => .transfer direction words) fun r =>
        ⟨r.start, r.key, r.count⟩ where
  ignores _ _ h := nomatch h
  begins x _ := by
    rw [stepTransfer_none, Access.opens, Access.transferKey]
    split <;> rfl
  goesOn r x _ hkey := by
    rw [stepTransfer_some, if_neg fun hends => (OpenTransfer.endedBy_iff ..).mp hends hkey]
  breaks r x _ hkey := by
    rw [stepTransfer_some, if_pos ((OpenTransfer.endedBy_iff ..).mpr hkey), Access.opens,
      Access.transferKey]
    split <;> rfl
  reports _ _ := rfl

theorem followsRows_poll :
    FollowsRows stepPoll OpenPoll.event (·.concernsPoll) Access.pollKey
      (fun value _ => .status value) fun r => ⟨r.start, r.key⟩ where
  ignores p x h := by
    obtain ⟨hreads, hends⟩ := Bool.or_eq_false_iff.mp h
    rw [stepPoll, if_neg (Bool.eq_false_iff.mp hreads)]
    exact if_neg (Bool.eq_false_iff.mp hends)
  begins x _ := by
    rw [stepPoll_none, Access.opens, Access.pollKey]
    split <;> rfl
  goesOn r x hconcerns hkey := by
    rw [stepPoll_some, if_neg fun hends => (OpenPoll.endedBy_iff hconcerns _).mp hends hkey]
  breaks r x hconcerns hkey := by
    rw [stepPoll_some, if_pos ((OpenPoll.endedBy_iff hconcerns _).mpr hkey), Access.opens,
      Access.pollKey]
    split <;> rfl
  reports _ _ := rfl

theorem followsRows_selection :
    FollowsRows stepSelection OpenSelection.event (·.writesDevice) Access.selectionKey
      (fun device _ => .selection device) fun r => ⟨r.start, r.key⟩ where
  ignores s x h := by rw [stepSelection, if_neg (Bool.eq_false_iff.mp h)]
  begins x hwrites := by
    rw [stepSelection_none, if_pos hwrites]
    rfl
  goesOn r x hwrites hkey := by
    rw [stepSelection_some,
      if_neg fun hends => (OpenSelection.endedBy_iff hwrites _).mp hends hkey]
  breaks r x hwrites hkey := by
    rw [stepSelection_some, if_pos ((OpenSelection.endedBy_iff hwrites _).mpr hkey),
      if_pos hwrites]
    rfl
  reports _ _ := rfl

/-! ### Timelines -/

/-- Each of these categories is a family of its own. -/
theorem Event.filter_category {c : Category}
    (hc : c ∈ [Category.transfer, .status, .selection])
    (events : List Event) :
    events.filter (·.category = c) = events.filter (·.family = some c.family) := by
  refine List.filter_congr fun e _ => ?_
  obtain ⟨_, _, content⟩ := e
  simp only [List.mem_cons, List.not_mem_nil, or_false] at hc
  obtain rfl | rfl | rfl := hc <;> cases content <;> rfl

namespace Activity

/-! The selection at the end of a capture ends each of the parts. -/

theorem stepTransfer_farewell (a : Activity) (stop : Nat) :
    (stepTransfer a.transfer (a.farewell stop)).1 =
      (a.transfer.map (·.event stop)).toList := by
  cases a.transfer <;> rfl

theorem stepPoll_farewell (a : Activity) (stop : Nat) :
    (stepPoll a.poll (a.farewell stop)).1 = (a.poll.map (·.event stop)).toList := by
  cases a.poll <;> rfl

theorem stepSelection_farewell (a : Activity) (stop : Nat) :
    (stepSelection a.selection (a.farewell stop)).1 =
      (a.selection.map (·.event stop)).toList := by
  have hended := endedBy_farewell a stop .selection
  rw [endedBy, has] at hended
  cases hselection : a.selection with
  | none => rfl
  | some s =>
      rw [hselection, Option.any_some, Option.isSome_some] at hended
      rw [stepSelection_some, if_pos hended]
      rfl

section

variable {κ σ : Type} [DecidableEq κ] {step : Option σ → Access → List Event × Option σ}
  {report : Nat → σ → Event} {heeds : Access → Bool} {key : Access → Option κ}
  {content : κ → Nat → Content} {under : OpenRow κ → σ} {part : Activity → Option σ}
  {c : Category} {names : Names} {stop : Nat}

/-- The events of a timeline that are of one family are those of its part alone. -/
theorem filter_timeline_family {f : Family}
    (hevents : ∀ a x, eventsOf names a x f = (step (part a) x).1)
    (hpart : ∀ a x, part (a.step names x).2 = (step (part a) x).2)
    (hfarewell : ∀ a, (step (part a) (a.farewell stop)).1 =
      ((part a).map (report stop)).toList)
    (a : Activity) (xs : List Access) :
    (a.timeline names stop xs).filter (·.family = some f) =
      feedUntil step report stop (part a) xs := by
  induction xs generalizing a with
  | nil =>
      show (a.step names (a.farewell stop)).1.filter _ = _
      rw [filter_step_family, hevents, hfarewell, feedUntil]
  | cons x xs ih =>
      show ((a.step names x).1 ++ (a.step names x).2.timeline names stop xs).filter _ = _
      rw [List.filter_append, filter_step_family, hevents, ih, hpart, feedUntil]

/-- A part that follows rows and is not under way at first reports the spans of its rows. -/
theorem filter_timeline_category (hrows : FollowsRows step report heeds key content under)
    (hc : c ∈ [Category.transfer, .status, .selection])
    (hevents : ∀ a x, eventsOf names a x c.family = (step (part a) x).1)
    (hpart : ∀ a x, part (a.step names x).2 = (step (part a) x).2)
    (hfarewell : ∀ a, (step (part a) (a.farewell stop)).1 =
      ((part a).map (report stop)).toList)
    (hidle : part idle = none) (xs : List Access) :
    (idle.timeline names stop xs).filter (·.category = c) =
      rowSpans key content stop (xs.filter heeds) := by
  rw [Event.filter_category hc, filter_timeline_family hevents hpart hfarewell, hidle,
    hrows.feedUntil_eq_rowSpans]

end

/-- The transfers of a timeline are the longest rows of successive accesses to the data
register in one direction, each with as many words as accesses, from the first of them to the
access behind the row. All together they have one word for every access to the data
register. -/
theorem transfers_of_timeline (names : Names) (stop : Nat) (xs : List Access) :
    let transfers := (idle.timeline names stop xs).filter (·.category = .transfer)
    transfers = transferSpans stop xs ∧
      Event.transferred transfers = xs.countP (·.isData) := by
  intro transfers
  have hspans : transfers = transferSpans stop (xs.filter fun _ => true) :=
    filter_timeline_category followsRows_transfer (by decide) (fun _ _ => rfl) (fun _ _ => rfl)
      (fun a => stepTransfer_farewell a stop) rfl xs
  rw [List.filter_true] at hspans
  refine ⟨hspans, ?_⟩
  calc Event.transferred transfers
      = Event.transferred
        ((idle.timeline names stop xs).filter (·.family = some .transfers)) :=
        congrArg _ (Event.filter_category (by decide) _)
    _ = Event.transferred (idle.timeline names stop xs) :=
        Event.transferred_filter (fun _ => decide_eq_true) _
    _ = idle.wordsOpen + xs.countP (·.isData) := words_timeline names idle stop xs
    _ = xs.countP (·.isData) := Nat.zero_add _

/-- The polls of a timeline are the longest rows of status reads with one value among the
status reads, commands and selections, from the first of the reads to the next of these
accesses. -/
theorem polls_of_timeline (names : Names) (stop : Nat) (xs : List Access) :
    (idle.timeline names stop xs).filter (·.category = .status) = pollSpans stop xs := by
  exact filter_timeline_category followsRows_poll (by decide) (fun _ _ => rfl) (fun _ _ => rfl)
    (fun a => stepPoll_farewell a stop) rfl xs

/-- Both status registers count for one poll, and the read of another register does not
interrupt it. -/
example : pollSpans 42 [⟨10, 12, .read, 0x17, 0x80⟩, ⟨20, 22, .read, 0x0E, 0x80⟩,
    ⟨25, 27, .read, 0x11, 0x00⟩, ⟨30, 32, .read, 0x17, 0x80⟩, ⟨40, 42, .read, 0x17, 0x58⟩] =
    [⟨10, 40, .status 0x80⟩, ⟨40, 42, .status 0x58⟩] := by
  decide

/-- The selections of a timeline are the longest rows of writes to the device register that
select one device, from the first of them to the next selection of the other device. They fill
the time from the first write to the end, and each selects the device that the one before it
does not. The selection with which a timeline ends is forgotten. -/
theorem selections_of_timeline (names : Names) (stop : Nat) (xs : List Access) :
    let selections := (idle.timeline names stop xs).filter (·.category = .selection)
    selections = selectionSpans stop xs ∧
      Tile (firstStart (·.writesDevice) stop xs) stop selections ∧
      selections.IsChain (fun e f =>
        ∃ device < 2, e.content = .selection device ∧ f.content = .selection (1 - device)) ∧
      ((idle.after names xs).finish names stop).2 = idle := by
  intro selections
  have hspans : selections = selectionSpans stop xs :=
    filter_timeline_category followsRows_selection (by decide) (fun _ _ => rfl)
      (fun _ _ => rfl) (fun a => stepSelection_farewell a stop) rfl xs
  refine ⟨hspans, ?_, ?_, congrArg Prod.snd (finish_eq names _ stop)⟩
  · rw [hspans]
    exact tile_selectionSpans stop xs
  · rw [hspans]
    exact isChain_selectionSpans stop xs

end Activity

end AtaCapture.Ata
