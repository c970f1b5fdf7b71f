import VirtualComputer.Proofs.Machine.Effects

/-!
# The lifecycle of a machine

A lifecycle is sound if it is in one of four phases: there is no guest, the guest rests, a task waits to resume it, or
a worker is inside a resume.  Signals and queries keep the lifecycle as it is; `stop` keeps it sound (`stop_sound`),
and whatever else changes it does so by `close` and `schedule` (`close_lifecycle`, `schedule_lifecycle`).
-/

namespace VirtualComputer

/-! ## Phases -/

/-- The part of a machine that decides how it goes on. -/
structure Lifecycle where
  state : State
  guest : Option Guest
  task : Bool
  epoch : Nat
  waiting : List Nat
  inside : Option Delivery

def Machine.lifecycle {ν : Type} (m : Machine ν) : Lifecycle :=
  ⟨m.state, m.guest, m.task, m.epoch, m.waiting, m.inside⟩

/-- The kernel waits at a `yield`. -/
def Guest.Waits (g : Guest) : Prop :=
  ∃ co, g.kernel = some (.thread co) ∧ co.status = .suspended

/-- What the pending slot holds in a state: the call to be made, then its result. -/
def State.Holds : State → Option Val → Prop
  | .synchronizedCall, slot => ∃ v, slot = some v ∧ v.isCallable
  | .synchronizedReturn, slot | .synchronizedReturnPaused, slot => ∃ items, slot = some (.list items)
  | _, _ => True

/-- The states in which the next update decides. -/
def State.Resting (s : State) : Prop :=
  s = .suspended ∨ s = .sleeping ∨ s = .paused ∨ s = .synchronizedCall ∨ s = .synchronizedReturnPaused

/-- All tasks that wait are of older epochs. -/
def Void (epoch : Nat) (waiting : List Nat) : Prop :=
  ∀ e ∈ waiting, e < epoch

/-- One task of the epoch waits, and none of a later one. -/
def Due (epoch : Nat) (waiting : List Nat) : Prop :=
  waiting.count epoch = 1 ∧ ∀ e ∈ waiting, e ≤ epoch

/-- A lifecycle is in one of four phases. -/
inductive Lifecycle.Sound : Lifecycle → Prop
  /-- There is no guest. -/
  | empty {state : State} {epoch : Nat} {waiting : List Nat} (hs : state = .stopped ∨ state = .rebooting)
      (hw : Void epoch waiting) : Sound ⟨state, none, false, epoch, waiting, none⟩
  /-- The guest waits for an update. -/
  | resting {state : State} {g : Guest} {epoch : Nat} {waiting : List Nat} (hs : state.Resting) (hg : g.Waits)
      (hp : state.Holds g.pending) (hw : Void epoch waiting) : Sound ⟨state, some g, false, epoch, waiting, none⟩
  /-- The guest waits for a worker. -/
  | queued {state : State} {g : Guest} {epoch : Nat} {waiting : List Nat}
      (hs : state = .yielded ∨ state = .synchronizedReturn ∨ state = .stopping) (hg : g.Waits)
      (hp : state.Holds g.pending) (hw : Due epoch waiting) : Sound ⟨state, some g, true, epoch, waiting, none⟩
  /-- A worker is inside a resume. -/
  | busy {state : State} {g : Guest} {epoch : Nat} {waiting : List Nat} {d : Delivery}
      (hs : state = .running ∨ state = .stopping) (hw : Void epoch waiting) :
      Sound ⟨state, some g, true, epoch, waiting, some d⟩

def Machine.Sound {ν : Type} (m : Machine ν) : Prop :=
  m.lifecycle.Sound

/-! ## Waiting tasks -/

section Waiting

variable {epoch e : Nat} {waiting : List Nat}

theorem Void.later (h : Void epoch waiting) : Void (epoch + 1) waiting :=
  fun e he => Nat.lt_succ_of_lt (h e he)

theorem Due.later (h : Due epoch waiting) : Void (epoch + 1) waiting :=
  fun e he => Nat.lt_succ_of_le (h.2 e he)

theorem Void.count (h : Void epoch waiting) : waiting.count epoch = 0 :=
  List.count_eq_zero_of_not_mem fun he => Nat.lt_irrefl _ (h _ he)

theorem Void.erase (h : Void epoch waiting) (e : Nat) : Void epoch (waiting.erase e) :=
  fun x hx => h x (List.mem_of_mem_erase hx)

/-- A task that is queued is the only one of its epoch. -/
theorem Void.queue (h : Void epoch waiting) : Due epoch (waiting ++ [epoch]) := by
  refine ⟨?_, List.forall_mem_append.2 ⟨fun e he => Nat.le_of_lt (h e he), List.forall_mem_singleton.2 (Nat.le_refl _)⟩⟩
  rw [List.count_append, h.count, List.count_singleton_self]

/-- Once the task of the epoch has begun, those that wait are void. -/
theorem Due.begin (h : Due epoch waiting) : Void epoch (waiting.erase epoch) := by
  intro e he
  have hle : e ≤ epoch := h.2 e (List.mem_of_mem_erase he)
  refine Nat.lt_of_le_of_ne hle fun heq => ?_
  have hcount : (waiting.erase epoch).count epoch = 0 := by rw [List.count_erase_self, h.1]
  rw [heq] at he
  exact List.count_eq_zero.1 hcount he

theorem Due.erase (h : Due epoch waiting) (he : epoch ≠ e) : Due epoch (waiting.erase e) := by
  refine ⟨?_, fun x hx => h.2 x (List.mem_of_mem_erase hx)⟩
  rw [List.count_erase_of_ne he, h.1]

theorem Due.mem (h : Due epoch waiting) : epoch ∈ waiting :=
  List.count_pos_iff.1 (by rw [h.1]; exact Nat.one_pos)

end Waiting

namespace Machine

variable {ν : Type} {m : Machine ν}

/-! ## Teardown and scheduling -/

theorem close_state (m : Machine ν) : m.close.state = .stopped := by
  unfold close
  dsimp only
  split
  · next h =>
    rw [Bool.and_eq_true, decide_eq_true_eq] at h
    exact h.1
  · rfl

theorem close_guest (m : Machine ν) : m.close.guest = none := by
  unfold close
  dsimp only
  split
  · next h => exact Option.isNone_iff_eq_none.1 ((Bool.and_eq_true _ _).mp h).2
  · rfl

/-- What a teardown comes to while nobody is inside a resume. -/
theorem close_lifecycle (hi : m.inside = none) (ht : m.state = .stopped → m.task = false) :
    m.close.lifecycle = ⟨.stopped, none, false, m.epoch + 1, m.waiting, none⟩ := by
  unfold close
  dsimp only
  split
  · next h =>
    rw [Bool.and_eq_true, decide_eq_true_eq] at h
    rw [lifecycle, hi]
    dsimp only
    rw [h.1, ht h.1, Option.isNone_iff_eq_none.1 h.2]
  · rw [lifecycle, hi]

theorem close_sound (hw : Void (m.epoch + 1) m.waiting) (hi : m.inside = none)
    (ht : m.state = .stopped → m.task = false) : m.close.Sound := by
  rw [Sound, close_lifecycle hi ht]
  exact .empty (.inl rfl) hw

theorem schedule_lifecycle (next : State) (ht : m.task = false) :
    (m.schedule next).lifecycle = ⟨next, m.guest, true, m.epoch, m.waiting ++ [m.epoch], m.inside⟩ := by
  rw [schedule, ht]
  rfl

/-! ## Guests that nobody resumes -/

/-- Nobody is about to resume the guest. -/
structure Free (m : Machine ν) (g : Guest) : Prop where
  guest : m.guest = some g
  task : m.task = false
  inside : m.inside = none
  void : Void m.epoch m.waiting

section Free

variable {g : Guest} (h : m.Free g)
include h

theorem Free.close_sound : m.close.Sound :=
  Machine.close_sound h.void.later h.inside fun _ => h.task

theorem Free.tell (e : Event) : (m.tell e).Free g :=
  ⟨h.guest, h.task, h.inside, h.void⟩

theorem Free.noticed (es : List Event) (message : Option String) : Free { m.tellAll es with message } g :=
  ⟨h.guest, h.task, h.inside, h.void⟩

theorem Free.reboot_sound : Sound { m.close with state := .rebooting } := by
  show Lifecycle.Sound { m.close.lifecycle with state := .rebooting }
  rw [close_lifecycle h.inside fun _ => h.task]
  exact .empty (.inr rfl) h.void.later

theorem Free.crash_sound (message : String) : (m.crash message).Sound :=
  Free.close_sound (m := { m with message := some message }) (g := g) ⟨h.guest, h.task, h.inside, h.void⟩

/-- The guest may rest in any of the states for that. -/
theorem Free.rest_sound {state : State} (hs : state.Resting) (hg : g.Waits) (hp : state.Holds g.pending) :
    Lifecycle.Sound ⟨state, m.guest, m.task, m.epoch, m.waiting, m.inside⟩ := by
  rw [h.guest, h.task, h.inside]
  exact .resting hs hg hp h.void

theorem Free.schedule_sound {next : State} (hs : next = .yielded ∨ next = .synchronizedReturn) (hg : g.Waits)
    (hp : next.Holds g.pending) : (m.schedule next).Sound := by
  rw [Sound, schedule_lifecycle next h.task, h.guest, h.inside]
  exact .queued (hs.imp_right .inl) hg hp h.void.queue

end Free

/-- The guest of a resting machine is free. -/
theorem Sound.free (h : m.Sound) (hs : m.state.Resting) : ∃ g, m.Free g ∧ g.Waits ∧ m.state.Holds g.pending := by
  rcases m with ⟨state, guest, task, epoch, waiting, inside, _⟩
  cases h with
  | resting _ hg hp hw => exact ⟨_, ⟨rfl, rfl, rfl, hw⟩, hg, hp⟩
  | empty hs' _ => rcases hs' with rfl | rfl <;> rcases hs with h | h | h | h | h <;> cases h
  | queued hs' _ _ _ => rcases hs' with rfl | rfl | rfl <;> rcases hs with h | h | h | h | h <;> cases h
  | busy hs' _ => rcases hs' with rfl | rfl <;> rcases hs with h | h | h | h | h <;> cases h

/-- Nobody is about to resume a guest that has asked for a call. -/
theorem Sound.free_call (h : m.Sound) (hs : m.state = .synchronizedCall) :
    ∃ g, m.Free g ∧ g.Waits ∧ m.state.Holds g.pending :=
  h.free (.inr (.inr (.inr (.inl hs))))

/-- A stopped machine has no guest, and all its tasks are void. -/
theorem Sound.stopped (h : m.Sound) (hs : m.state = .stopped) :
    m.lifecycle = ⟨.stopped, none, false, m.epoch, m.waiting, none⟩ ∧ Void m.epoch m.waiting := by
  rcases m with ⟨state, guest, task, epoch, waiting, inside, _⟩
  cases hs
  cases h with
  | empty _ hw => exact ⟨rfl, hw⟩
  | resting hs' _ _ _ => rcases hs' with h | h | h | h | h <;> cases h
  | queued hs' _ _ _ => rcases hs' with h | h | h <;> cases h
  | busy hs' _ => rcases hs' with h | h <;> cases h

/-- No task waits for a guest that a worker resumes. -/
theorem Sound.resuming (h : m.Sound) {d : Delivery} (hi : m.inside = some d) :
    Void m.epoch m.waiting ∧ ∃ g, m.guest = some g := by
  rcases m with ⟨state, guest, task, epoch, waiting, inside, _⟩
  cases h with
  | empty | resting | queued => cases hi
  | busy _ hw => exact ⟨hw, _, rfl⟩

/-- A machine that reboots may as well be stopped. -/
theorem Sound.reboot (h : m.Sound) (hs : m.state = .rebooting) : Sound { m with state := .stopped } := by
  rcases m with ⟨state, guest, task, epoch, waiting, inside, _⟩
  cases hs
  cases h with
  | empty _ hw => exact .empty (.inl rfl) hw
  | resting hs' _ _ _ => rcases hs' with h | h | h | h | h <;> cases h
  | queued hs' _ _ _ => rcases hs' with h | h | h <;> cases h
  | busy hs' _ => rcases hs' with h | h <;> cases h

/-- A sound machine can be torn down whenever nobody is inside a resume. -/
theorem Sound.close (h : m.Sound) (hi : m.inside = none) : m.close.Sound := by
  rcases m with ⟨state, guest, task, epoch, waiting, inside, _⟩
  cases h with
  | empty _ hw => exact close_sound hw.later rfl fun _ => rfl
  | resting _ _ _ hw => exact close_sound hw.later rfl fun _ => rfl
  | queued hs _ _ hw =>
    refine close_sound hw.later rfl fun h => ?_
    rcases hs with rfl | rfl | rfl <;> cases h
  | busy _ _ => cases hi

/-! ## Signals and stops -/

theorem signal_lifecycle (s : Signal) (m : Machine ν) : (m.signal s).2.lifecycle = m.lifecycle := by
  unfold signal
  split <;> rfl

theorem relay_lifecycle (s : Signal) (m : Machine ν) : (m.relay s).2.lifecycle = m.lifecycle := by
  unfold relay
  split
  · exact signal_lifecycle s m
  · rfl

/-- A machine that is asked to stop is torn down at once unless a resume is outstanding. -/
theorem stop_sound (h : m.Sound) : m.stop.2.Sound := by
  rcases m with ⟨state, guest, task, epoch, waiting, inside, _⟩
  cases h with
  | empty hs hw =>
    rcases hs with rfl | rfl
    · exact .empty (.inl rfl) hw
    · exact close_sound hw.later rfl nofun
  | resting hs hg hp hw => rcases hs with rfl | rfl | rfl | rfl | rfl <;> exact close_sound hw.later rfl nofun
  | queued hs hg hp hw => rcases hs with rfl | rfl | rfl <;> exact .queued (.inr (.inr rfl)) hg trivial hw
  | busy hs hw => rcases hs with rfl | rfl <;> exact .busy (.inr rfl) hw

end Machine

end VirtualComputer
