import AtaCapture.Ata.Activity

/-!
The parts of the protocol activity run side by side: commands, transfers, polls and selections
each see every access, and the events of one part are those of its own categories. The end of a
capture is one more access to them all, a selection. So what is said about a part can be proved
of the part alone.
-/

namespace AtaCapture.Ata

/-- The events of a machine that is fed accesses one by one. -/
def feed {σ : Type} (step : σ → Access → List Event × σ) (s : σ) : List Access → List Event
  | [] => []
  | x :: xs => (step s x).1 ++ feed step (step s x).2 xs

/-! ### Events of one access -/

def Category.isCommands (c : Category) : Bool := c = .command || c = .packet

theorem category_commandsStep (names : Names) (c : Commands) (x : Access) :
    ∀ e ∈ (c.step names x).1, e.category.isCommands := by
  intro e he
  simp only [Commands.step, List.mem_append, Option.mem_toList, Option.map_eq_some_iff] at he
  rcases he with ⟨_, _, rfl⟩ | ⟨_, _, rfl⟩ <;> rfl

theorem category_stepTransfer (t : Option OpenTransfer) (x : Access) :
    ∀ e ∈ (stepTransfer t x).1, e.category = .transfer := by
  intro e he
  simp only [stepTransfer, Option.mem_toList, Option.map_eq_some_iff] at he
  obtain ⟨_, _, rfl⟩ := he
  rfl

theorem category_stepPoll (p : Option OpenPoll) (x : Access) :
    ∀ e ∈ (stepPoll p x).1, e.category = .status := by
  intro e he
  simp only [stepPoll] at he
  split at he
  · split at he
    · cases he
    · obtain ⟨_, _, rfl⟩ := Option.map_eq_some_iff.mp (Option.mem_toList.mp he)
      rfl
  · split at he
    · obtain ⟨_, _, rfl⟩ := Option.map_eq_some_iff.mp (Option.mem_toList.mp he)
      rfl
    · cases he

theorem category_stepSelection (s : Option OpenSelection) (x : Access) :
    ∀ e ∈ (stepSelection s x).1, e.category = .selection := by
  intro e he
  simp only [stepSelection] at he
  split at he
  · split at he
    · cases he
    · obtain ⟨_, _, rfl⟩ := Option.map_eq_some_iff.mp (Option.mem_toList.mp he)
      rfl
  · cases he

/-! ### Families -/

/-- Events that follow each other in time. Those of one family come from one part of the
activity, or from the bus itself. -/
inductive Family where
  | commands
  | transfers
  | polls
  | selections
  | bus
  deriving DecidableEq

/-- A write to the control mux belongs to no family: what is reported for it is no span of the
capture. -/
def Content.family : Content → Option Family
  | .command .. | .packet .. => some .commands
  | .transfer .. => some .transfers
  | .status _ => some .polls
  | .selection _ => some .selections
  | .registerWrite .. | .registerRead .. | .dataWrite _ | .dataRead _ | .overflow => some .bus
  | .muxWrite _ => none

def Event.family (e : Event) : Option Family := e.content.family

def Category.family : Category → Family
  | .command | .packet => .commands
  | .transfer => .transfers
  | .status => .polls
  | .selection => .selections
  | .registerWrite | .registerRead | .dataWrite | .dataRead | .anomaly => .bus

theorem Event.family_eq {e : Event} (h : e.category ≠ .anomaly) :
    e.family = some e.category.family := by
  obtain ⟨_, _, content⟩ := e
  cases content with
  | overflow | muxWrite => exact absurd rfl h
  | _ => rfl

theorem filter_family {events : List Event} {f : Family} (h : ∀ e ∈ events, e.family = some f)
    (g : Family) : events.filter (·.family = some g) = if f = g then events else [] := by
  split
  · rename_i hsame
    refine List.filter_eq_self.mpr fun e he => ?_
    rw [h e he, hsame]
    exact decide_eq_true rfl
  · rename_i hdiffers
    refine List.filter_eq_nil_iff.mpr fun e he hfamily => ?_
    rw [h e he] at hfamily
    exact hdiffers (Option.some.inj (of_decide_eq_true hfamily))

theorem family_commandsStep (names : Names) (c : Commands) (x : Access) :
    ∀ e ∈ (c.step names x).1, e.family = some .commands := by
  intro e he
  have hcategory := category_commandsStep names c x e he
  simp only [Category.isCommands, Bool.or_eq_true, decide_eq_true_eq] at hcategory
  rcases hcategory with hcategory | hcategory
  all_goals
    rw [Event.family_eq (by rw [hcategory]; decide), hcategory]
    rfl

theorem family_stepTransfer (t : Option OpenTransfer) (x : Access) :
    ∀ e ∈ (stepTransfer t x).1, e.family = some .transfers := by
  intro e he
  have hcategory := category_stepTransfer t x e he
  rw [Event.family_eq (by rw [hcategory]; decide), hcategory]
  rfl

theorem family_stepPoll (p : Option OpenPoll) (x : Access) :
    ∀ e ∈ (stepPoll p x).1, e.family = some .polls := by
  intro e he
  have hcategory := category_stepPoll p x e he
  rw [Event.family_eq (by rw [hcategory]; decide), hcategory]
  rfl

theorem family_stepSelection (s : Option OpenSelection) (x : Access) :
    ∀ e ∈ (stepSelection s x).1, e.family = some .selections := by
  intro e he
  have hcategory := category_stepSelection s x e he
  rw [Event.family_eq (by rw [hcategory]; decide), hcategory]
  rfl

namespace Activity

variable (names : Names) (a : Activity)

theorem step_events (x : Access) :
    (a.step names x).1 = (a.commands.step names x).1 ++ (stepTransfer a.transfer x).1 ++
      (stepPoll a.poll x).1 ++ (stepSelection a.selection x).1 := rfl

theorem step_commands (x : Access) :
    (a.step names x).2.commands = (a.commands.step names x).2 := rfl

/-- Of the events of one access, a category of commands selects among those of the commands. -/
theorem filter_step_commands (x : Access) {c : Category} (hc : c.isCommands) :
    (a.step names x).1.filter (·.category = c) =
      (a.commands.step names x).1.filter (·.category = c) := by
  have hnone {events : List Event} {d : Category} (hd : d.isCommands = false)
      (h : ∀ e ∈ events, e.category = d) : events.filter (·.category = c) = [] := by
    refine List.filter_eq_nil_iff.mpr fun e he hsame => ?_
    rw [h e he] at hsame
    rw [of_decide_eq_true hsame, hc] at hd
    cases hd
  rw [step_events, List.filter_append, List.filter_append, List.filter_append,
    hnone rfl (category_stepTransfer a.transfer x), hnone rfl (category_stepPoll a.poll x),
    hnone rfl (category_stepSelection a.selection x), List.append_nil, List.append_nil,
    List.append_nil]

def eventsOf (x : Access) : Family → List Event
  | .commands => (a.commands.step names x).1
  | .transfers => (stepTransfer a.transfer x).1
  | .polls => (stepPoll a.poll x).1
  | .selections => (stepSelection a.selection x).1
  | .bus => []

theorem filter_step_family (x : Access) (f : Family) :
    (a.step names x).1.filter (·.family = some f) = a.eventsOf names x f := by
  rw [step_events, List.filter_append, List.filter_append, List.filter_append,
    filter_family (family_commandsStep names a.commands x),
    filter_family (family_stepTransfer a.transfer x), filter_family (family_stepPoll a.poll x),
    filter_family (family_stepSelection a.selection x)]
  cases f <;> simp [eventsOf]

/-! ### Whole timelines -/

def after (xs : List Access) : Activity := xs.foldl (fun a x => (a.step names x).2) a

theorem timeline_eq_feed (stop : Nat) (xs : List Access) :
    a.timeline names stop xs =
      feed (step names) a (xs ++ [(a.after names xs).farewell stop]) := by
  induction xs generalizing a with
  | nil => simp [timeline, finish, feed, after]
  | cons x xs ih => simp only [timeline, List.cons_append, feed, ih, after, List.foldl_cons]

theorem filter_feed_commands (xs : List Access) {c : Category} (hc : c.isCommands) :
    (feed (step names) a xs).filter (·.category = c) =
      (feed (Commands.step names) a.commands xs).filter (·.category = c) := by
  induction xs generalizing a with
  | nil => rfl
  | cons x xs ih =>
      rw [feed, feed, List.filter_append, List.filter_append, ih,
        filter_step_commands names a x hc, step_commands]

end Activity

end AtaCapture.Ata
