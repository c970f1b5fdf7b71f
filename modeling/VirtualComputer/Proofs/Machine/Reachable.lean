import VirtualComputer.CommandLine.Console
import VirtualComputer.Proofs.Machine.Standard

/-!
# Whatever is done to a machine, it is in order

`Reachable` machines come from new ones by operations and tasks in any order.  All of them are sound
(`reachable_sound`), which says when a machine has a guest, when a task is outstanding, and what the slots of the guest
hold (`reachable_lawful`).  With the default boot program their guests are standard (`reachable_standard`), so that any
record that such machines save may be loaded (`Reachable.load_default`).
-/

namespace VirtualComputer

open Machine

/-- What a machine may come to when operations and the steps of workers follow each other in any order.  A worker takes
a task in two steps, between which the machine may be operated; what needs the guest waits until no worker has it.  A
record that is loaded may have been saved by any machine, as long as both have the library's own entry points. -/
inductive Reachable : {ν : Type} → Site ν → Machine ν → Prop
  | fresh {ν : Type} (site : Site ν) (catalog : Catalog) (outside : ν) : Reachable site (fresh site catalog outside)
  | start {ν : Type} {site : Site ν} {m : Machine ν} (h : Reachable site m) : Reachable site (m.start site).2
  | stop {ν : Type} {site : Site ν} {m : Machine ν} (h : Reachable site m) : Reachable site m.stop.2
  | signal {ν : Type} {site : Site ν} {m : Machine ν} (h : Reachable site m) (s : Signal) :
      Reachable site (m.signal s).2
  | update {ν : Type} {site : Site ν} {m : Machine ν} (h : Reachable site m) : Reachable site (m.update site)
  | receive {ν : Type} {site : Site ν} {m : Machine ν} (h : Reachable site m) (msg : Message) :
      Reachable site (m.receive site msg).2
  | save {ν : Type} {site : Site ν} {m : Machine ν} (h : Reachable site m) (hi : m.inside = none) :
      Reachable site m.save.2
  | load {ν μ : Type} {site : Site ν} {m : Machine ν} {origin : Site μ} {saved : Machine μ} {r : MachineRecord}
      (h : Reachable site m) (hi : m.inside = none) (hs : Reachable origin saved) (hsi : saved.inside = none)
      (hr : saved.save.1 = .ok r) (hss : ∀ g, saved.guest = some g → g.Standard)
      (hst : ∀ g, (m.load site r).guest = some g → g.Standard) : Reachable site (m.load site r)
  /-- A worker takes a task that waits. -/
  | beginTask {ν : Type} {site : Site ν} {m : Machine ν} (h : Reachable site m) (hi : m.inside = none) {epoch : Nat}
      (he : epoch ∈ m.waiting) : Reachable site (beginTask site epoch { m with waiting := m.waiting.erase epoch })
  | finishTask {ν : Type} {site : Site ν} {m : Machine ν} (h : Reachable site m) : Reachable site (m.finishTask site)
  /-- The world changes, and takes note of what it has been told. -/
  | elsewhere {ν : Type} {site : Site ν} {m : Machine ν} (h : Reachable site m) (outside : ν) (told : List Event) :
      Reachable site { m with outside, told }

variable {ν : Type} {site : Site ν} {m : Machine ν}

/-- A worker that takes the first task does so by steps. -/
theorem Reachable.work (h : Reachable site m) (hi : m.inside = none) : Reachable site (m.work site) := by
  unfold Machine.work
  split
  · exact h
  · next epoch waiting hw =>
    have hb := h.beginTask hi (by rw [hw]; exact List.mem_cons_self (a := epoch))
    rw [hw, List.erase_cons_head] at hb
    exact hb.finishTask

/-- Every step keeps a machine sound. -/
theorem reachable_sound (h : Reachable site m) : m.Sound := by
  induction h with
  | fresh site catalog outside => exact .empty (.inl rfl) nofun
  | start _ ih => exact start_sound ih
  | stop _ ih => exact stop_sound ih
  | signal _ s ih =>
    rw [Machine.Sound, signal_lifecycle]
    exact ih
  | update _ ih => exact update_sound ih
  | receive _ msg ih => exact receive_sound msg ih
  | save _ _ ih => exact save_sound ih
  | load _ hi _ hsi hr hss hst ih ihs => exact load_sound ih hi (save_saved ihs hsi hss hr) hst
  | beginTask _ hi he ih => exact beginTask_sound ih hi he
  | finishTask _ ih => exact finishTask_sound ih
  | elsewhere _ outside told ih => exact ih

theorem reachable_standard (h : Reachable site m) : m.Standard := by
  induction h with
  | fresh site catalog outside => nofun
  | start _ ih => exact ih.start
  | stop _ ih => exact ih.stop
  | signal _ s ih => exact ih.signal s
  | update _ ih => exact ih.update
  | receive _ msg ih => exact ih.handle ih.start msg
  | save _ _ ih => exact (save_told _).standard ih
  | load _ _ _ _ _ _ _ ih _ => exact ih.load _
  | beginTask _ _ _ ih => exact (beginTask_taken _ _ _).standard ih
  | finishTask h ih => exact ih.finishTask (reachable_sound h).regular
  | elsewhere _ outside told ih => exact ih

/-- Machines with the default boot program may load each other's records. -/
theorem Reachable.load_default {μ : Type} {origin : Site μ} {saved : Machine μ} {r : MachineRecord}
    (h : Reachable site m) (hi : m.inside = none) (hs : Reachable origin saved) (hsi : saved.inside = none)
    (hr : saved.save.1 = .ok r) (hb : m.catalog.boot = Catalog.defaultBoot)
    (hsb : saved.catalog.boot = Catalog.defaultBoot) : Reachable site (m.load site r) := by
  refine h.load hi hs hsi hr (fun g hg => reachable_standard hs g hg hsb) fun g hg => ?_
  exact (reachable_standard h).load r g hg ((load_boot r m).trans hb)

/-! ## What it is to be sound -/

theorem Machine.Sound.guest_iff (h : m.Sound) : m.guest.isSome ↔ m.state ≠ .stopped ∧ m.state ≠ .rebooting :=
  h.regular.guest_iff

theorem Machine.Sound.tasks_eq (h : m.Sound) : m.tasks = if m.task then 1 else 0 :=
  h.regular.tasks_eq

theorem Machine.Sound.task_iff (h : m.Sound) : m.task ↔ (m.state = .yielded ∨ m.state = .synchronizedReturn) ∨
    m.inside.isSome ∨ (m.state = .stopping ∧ m.epoch ∈ m.waiting) := by
  rcases m with ⟨state, guest, task, epoch, waiting, inside, _⟩
  cases h with
  | empty hs _ => rcases hs with rfl | rfl <;> simp
  | resting hs _ _ _ => rcases hs with rfl | rfl | rfl | rfl | rfl <;> simp
  | queued hs _ _ hw => rcases hs with rfl | rfl | rfl <;> simp [hw.mem]
  | busy hs _ => simp

theorem Machine.Sound.kernel (h : m.Sound) (hi : m.inside = none) {g : Guest} (hg : m.guest = some g) : g.Waits := by
  rcases m with ⟨state, guest, task, epoch, waiting, inside, _⟩
  cases hg
  cases h with
  | resting _ hg _ _ | queued _ hg _ _ => exact hg
  | busy _ _ => cases hi

theorem Machine.Sound.pending (h : m.Sound) (hs : m.state = .synchronizedCall ∨ m.state = .synchronizedReturn ∨
    m.state = .synchronizedReturnPaused) : ∃ g, m.guest = some g ∧ m.state.Holds g.pending := by
  rcases m with ⟨state, guest, task, epoch, waiting, inside, _⟩
  cases h with
  | empty hs' _ => rcases hs' with rfl | rfl <;> rcases hs with h | h | h <;> cases h
  | resting _ _ hp _ | queued _ _ hp _ => exact ⟨_, rfl, hp⟩
  | busy hs' _ => rcases hs' with rfl | rfl <;> rcases hs with h | h | h <;> cases h

theorem Machine.Sound.inside_states (h : m.Sound) :
    (m.inside.isSome → m.state = .running ∨ m.state = .stopping) ∧ (m.state = .running → m.inside.isSome) :=
  h.regular.inside_states

/-- What holds of a machine between its operations and the steps of its tasks. -/
structure Machine.Lawful (m : Machine ν) : Prop where
  /-- A machine has a guest unless it is stopped or about to start again. -/
  guest : m.guest.isSome ↔ m.state ≠ .stopped ∧ m.state ≠ .rebooting
  /-- There is at most one task of the current epoch. -/
  single : m.tasks ≤ 1
  /-- A task is outstanding exactly if it waits to resume the guest, a worker is inside the resume, or the machine is to
  be stopped once the waiting task has begun. -/
  task : m.task ↔ (m.state = .yielded ∨ m.state = .synchronizedReturn) ∨ m.inside.isSome ∨
    (m.state = .stopping ∧ m.epoch ∈ m.waiting)
  /-- A worker is inside a resume of a machine that runs or is being stopped. -/
  inside : (m.inside.isSome → m.state = .running ∨ m.state = .stopping) ∧ (m.state = .running → m.inside.isSome)
  /-- Unless a resume is under way, the kernel waits at a `yield`. -/
  kernel : m.inside = none → ∀ g, m.guest = some g → ∃ co, g.kernel = some (.thread co) ∧ co.status = .suspended
  /-- The call that the kernel asked for is in the pending slot until it is made. -/
  call : m.state = .synchronizedCall → ∃ g v, m.guest = some g ∧ g.pending = some v ∧ v.isCallable
  /-- The result of the call is in the pending slot until it is delivered. -/
  result : m.state = .synchronizedReturn ∨ m.state = .synchronizedReturnPaused →
    ∃ g items, m.guest = some g ∧ g.pending = some (.list items)

/-- Every machine that a new one comes to is in order. -/
theorem reachable_lawful (h : Reachable site m) : m.Lawful := by
  have hm := reachable_sound h
  refine ⟨hm.guest_iff, ?_, hm.task_iff, hm.inside_states, fun hi g hg => hm.kernel hi hg, fun hs => ?_, fun hs => ?_⟩
  · rw [hm.tasks_eq]
    split <;> decide
  · obtain ⟨g, hg, hp⟩ := hm.pending (.inl hs)
    rw [hs] at hp
    obtain ⟨v, hv, hc⟩ := hp
    exact ⟨g, v, hg, hv, hc⟩
  · obtain ⟨g, hg, hp⟩ := hm.pending (.inr hs)
    rcases hs with hs | hs <;> rw [hs] at hp <;> exact ⟨g, hp.choose, hg, hp.choose_spec⟩

/-- Where a machine on the console is run. -/
def consoleSite : Site Console :=
  Console.site "computer" Settings.standardMachine 100

/-- A machine whose kernel is to be resumed with a signal. -/
def signalled : Machine Console :=
  (((Machine.fresh consoleSite ⟨none, Catalog.defaultBoot, "yield 1\nyield 2", []⟩ ⟨0, 0⟩).start
    consoleSite).2.signal ⟨"key", []⟩).2.update consoleSite

/-- The machine once a worker has taken the task, after which it is asked to stop. -/
def interrupted : Machine Console :=
  (Machine.beginTask consoleSite 0 { signalled with waiting := signalled.waiting.erase 0 }).stop.2

/-- The machine is in order while it stops with a worker inside the resume. -/
theorem interrupted_lawful :
    (interrupted.state = .stopping ∧ interrupted.inside.isSome) ∧ interrupted.Lawful := by
  refine ⟨by decide +kernel, ?_⟩
  have hfree : signalled.inside.isNone ∧ 0 ∈ signalled.waiting := by decide +kernel
  have hreachable : Reachable consoleSite signalled :=
    (((Reachable.fresh consoleSite ⟨none, Catalog.defaultBoot, "yield 1\nyield 2", []⟩ ⟨0, 0⟩).start).signal
      ⟨"key", []⟩).update
  exact reachable_lawful (hreachable.beginTask (Option.isNone_iff_eq_none.1 hfree.1) hfree.2).stop

end VirtualComputer
