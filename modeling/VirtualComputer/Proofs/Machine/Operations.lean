import VirtualComputer.Proofs.Machine.Steps

/-!
# Courses of operations

An operation is whatever can happen to a machine at one time; a record that is loaded may hold anything.  Operations one
after the other make a course, and a course keeps what every operation keeps (`Admits.invariant`), such as that the
machine is regular (`Admits.regular`).
-/

namespace VirtualComputer

open Machine

/-! ## Operations -/

/-- What can happen to a machine. -/
inductive Operation (ν : Type) where
  | start
  | stop
  | signal (s : Signal)
  | update
  /-- An update that finds the guest still held by the worker that has just come to a call. -/
  | deferred
  | receive (msg : Message)
  | save
  | load (r : MachineRecord)
  /-- A worker takes a task of an epoch. -/
  | beginTask (epoch : Nat)
  | finishTask
  /-- The world changes. -/
  | elsewhere (outside : ν)

namespace Operation

variable {ν : Type}

/-- The machine after an operation. -/
def perform (site : Site ν) : Operation ν → Machine ν → Machine ν
  | .start, m => (m.start site).2
  | .stop, m => m.stop.2
  | .signal s, m => (m.signal s).2
  | .update, m => m.update site
  | .deferred, m => m.deferred site
  | .receive msg, m => (m.receive site msg).2
  | .save, m => m.save.2
  | .load r, m => m.load site r
  | .beginTask epoch, m => Machine.beginTask site epoch { m with waiting := m.waiting.erase epoch }
  | .finishTask, m => m.finishTask site
  | .elsewhere outside, m => { m with outside }

/-- What an operation adds to the history of a machine. -/
def log (site : Site ν) : Operation ν → Machine ν → List Occurrence
  | .start, m => m.startLog site
  | .stop, m => m.stopLog
  | .signal s, m => m.signalLog s
  | .update, m => m.updateLog site
  | .deferred, m => updateLog site { m with inside := some .nothing }
  | .receive msg, m => m.receiveLog site msg
  | .save, _ => []
  | .load r, m => m.loadLog site r
  | .beginTask epoch, m => beginTaskLog site epoch { m with waiting := m.waiting.erase epoch }
  | .finishTask, m => m.finishTaskLog site
  | .elsewhere _, _ => []

/-- Whether an operation can happen.  What needs the guest waits until no worker has it, and only a task that waits can
be taken. -/
def Allowed : Operation ν → Machine ν → Prop
  | .deferred, m => m.state = .synchronizedCall
  | .save, m | .load _, m => m.inside = none
  | .beginTask epoch, m => m.inside = none ∧ epoch ∈ m.waiting
  | _, _ => True

instance : (op : Operation ν) → (m : Machine ν) → Decidable (op.Allowed m)
  | .deferred, m => inferInstanceAs (Decidable (m.state = .synchronizedCall))
  | .save, m | .load _, m => inferInstanceAs (Decidable (m.inside = none))
  | .beginTask epoch, m => inferInstanceAs (Decidable (m.inside = none ∧ epoch ∈ m.waiting))
  | .start, _ | .stop, _ | .signal _, _ | .update, _ | .receive _, _ | .finishTask, _ | .elsewhere _, _ =>
    inferInstanceAs (Decidable True)

/-- Whether an operation replaces the run of a machine by that of a record. -/
def Loads : Operation ν → Prop
  | .load _ => True
  | _ => False

instance : (op : Operation ν) → Decidable op.Loads
  | .load _ => inferInstanceAs (Decidable True)
  | .start | .stop | .signal _ | .update | .deferred | .receive _ | .save | .beginTask _ | .finishTask | .elsewhere _ =>
    inferInstanceAs (Decidable False)

end Operation

namespace Machine

variable {ν : Type} {site : Site ν} {m : Machine ν}

/-! ### What they leave -/

theorem start_refused (site : Site ν) (hs : m.state ≠ .stopped) : start site m = (false, m) :=
  if_pos hs

/-- A start of a stopped machine lets the guest print while it is built, and begins a run if one could be. -/
theorem start_leaves (site : Site ν) (m : Machine ν) : start site m = (false, m) ∨
    m.state = .stopped ∧ ∃ (texts : List String) (ledger : Ledger) (outside : ν), m.Elapses outside ∧
      let built : Machine ν := { m.tellAll (texts.map .printed) with ledger, outside }
      (∃ g, start site m = (true, beginRun site g built)) ∨
        ∃ f : Failure, start site m = (false,
          { built with ledger := ledger.reset, message := f.display }.tell (.noticed (.startFailed f))) := by
  by_cases hs : m.state = .stopped
  · obtain ⟨texts, ledger, outside, helapses, hboot⟩ := bootKernel_printed site { m with ledger := { m.ledger with
      worldTime := site.worldTime m.outside, started := site.worldTime m.outside } }
    refine .inr ⟨hs, texts, ledger, outside, helapses, ?_⟩
    unfold start
    rw [if_neg (not_not_intro hs)]
    dsimp only
    rcases hb : bootKernel site { m with ledger := { m.ledger with
      worldTime := site.worldTime m.outside, started := site.worldTime m.outside } } with ⟨f | g, m'⟩
    all_goals
      rw [hb] at hboot
      subst hboot
    · exact .inr ⟨f, rfl⟩
    · exact .inl ⟨g, rfl⟩
  · exact .inl (start_refused site hs)

/-- What an update does before any call or start leaves the guest where it is. -/
theorem Advanced.same {a : Action} (h : m.Advanced a m') : m'.epoch = m.epoch ∧ m'.guest = m.guest := by
  have hschedule (next : State) : (m.schedule next).epoch = m.epoch ∧ (m.schedule next).guest = m.guest := by
    unfold schedule
    split <;> exact ⟨rfl, rfl⟩
  cases h with
  | kept | reboots | calls => exact ⟨rfl, rfl⟩
  | resumed | returned => exact hschedule _

/-- It starts the machine again, or makes a call, only in the state for that. -/
theorem Advanced.action {a : Action} (h : m.Advanced a m') :
    (a = .reboot → m.state = .rebooting) ∧ (a = .call → m.state = .synchronizedCall) := by
  cases h with
  | kept | resumed | returned => exact ⟨nofun, nofun⟩
  | reboots hs => exact ⟨fun _ => hs, nofun⟩
  | calls hs => exact ⟨nofun, fun _ => hs⟩

/-- A tick that makes a call does no more before it than to bring the displays up to date. -/
theorem ticked_call (site : Site ν) (hs : m.state = .synchronizedCall) :
    ticked site m = (.call, shown site m.ended (noted site m)) := by
  have hnoted : (noted site m).state = .synchronizedCall := hs
  rw [ticked_noted, advance, hnoted]

end Machine

/-- A message does nothing, or what another operation does. -/
theorem Operation.receive_cases {ν : Type} (site : Site ν) (msg : Message) (m : Machine ν) :
    (receive msg).perform site m = m ∧ (receive msg).log site m = [] ∨
      ∃ op : Operation ν, (op = .start ∨ op = .stop ∨ ∃ s, op = .signal s) ∧
        (receive msg).perform site m = op.perform site m ∧ (receive msg).log site m = op.log site m := by
  rcases handle_cases (Machine.start site) (startLog site m) msg m with h | ⟨s, h⟩ | h | h
  · exact .inl h
  · exact .inr ⟨.signal s, .inr (.inr ⟨s, rfl⟩), h⟩
  · exact .inr ⟨.start, .inl rfl, h⟩
  · exact .inr ⟨.stop, .inr (.inl rfl), h⟩

/-- Every operation keeps a machine regular. -/
theorem Operation.regular {ν : Type} {site : Site ν} {m : Machine ν} (op : Operation ν) (h : m.Regular)
    (ha : op.Allowed m) : (op.perform site m).Regular := by
  cases op with
  | start => exact start_regular h
  | stop => exact stop_regular h
  | signal s => exact h.of_eq (signal_lifecycle s m)
  | update => exact update_regular h
  | deferred =>
    obtain ⟨g, hfree⟩ := h.free_call ha
    exact h.of_eq (deferred_lifecycle hfree.inside ha)
  | receive msg => exact receive_regular msg h
  | save => exact h.of_eq (save_told m).lifecycle
  | load r => exact load_regular r h ha
  | beginTask epoch => exact beginTask_regular h ha.1 ha.2
  | finishTask => exact finishTask_regular h
  | elsewhere outside => exact h

/-! ## Courses -/

namespace Machine

variable {ν : Type}

/-- The machine after a course of operations. -/
def after (site : Site ν) : List (Operation ν) → Machine ν → Machine ν
  | [], m => m
  | op :: ops, m => after site ops (op.perform site m)

/-- What a course adds to the history of a machine. -/
def courseLog (site : Site ν) : List (Operation ν) → Machine ν → List Occurrence
  | [], _ => []
  | op :: ops, m => op.log site m ++ courseLog site ops (op.perform site m)

/-- What is true of each operation of a course and of the machine that it happens to. -/
def Along (site : Site ν) (P : Operation ν → Machine ν → Prop) : List (Operation ν) → Machine ν → Prop
  | [], _ => True
  | op :: ops, m => P op m ∧ Along site P ops (op.perform site m)

/-- Whether all operations of a course can happen. -/
def Admits (site : Site ν) (ops : List (Operation ν)) (m : Machine ν) : Prop :=
  Along site Operation.Allowed ops m

instance Along.decidable (site : Site ν) (P : Operation ν → Machine ν → Prop) [∀ op m, Decidable (P op m)] :
    (ops : List (Operation ν)) → (m : Machine ν) → Decidable (Along site P ops m)
  | [], _ => inferInstanceAs (Decidable True)
  | op :: ops, m =>
    have := Along.decidable site P ops (op.perform site m)
    inferInstanceAs (Decidable (P op m ∧ Along site P ops (op.perform site m)))

instance (site : Site ν) (ops : List (Operation ν)) (m : Machine ν) : Decidable (Admits site ops m) :=
  inferInstanceAs (Decidable (Along site Operation.Allowed ops m))

variable {site : Site ν} {m : Machine ν} {ops : List (Operation ν)}

theorem after_append (site : Site ν) (ops more : List (Operation ν)) (m : Machine ν) :
    after site (ops ++ more) m = after site more (after site ops m) := by
  induction ops generalizing m with
  | nil => rfl
  | cons op ops ih => exact ih _

theorem along_append {P : Operation ν → Machine ν → Prop} (ops more : List (Operation ν)) (m : Machine ν) :
    Along site P (ops ++ more) m ↔ Along site P ops m ∧ Along site P more (after site ops m) := by
  induction ops generalizing m with
  | nil => simp only [List.nil_append, Along, after, true_and]
  | cons op ops ih => exact (and_congr_right' (ih _)).trans and_assoc.symm

theorem admits_append (ops more : List (Operation ν)) (m : Machine ν) :
    Admits site (ops ++ more) m ↔ Admits site ops m ∧ Admits site more (after site ops m) :=
  along_append ops more m

/-- What every operation keeps is kept by every course. -/
theorem Admits.invariant {P : Machine ν → List Occurrence → Prop} (ha : m.Admits site ops) (log : List Occurrence)
    (h : m.Regular) (hstep : ∀ op ∈ ops, ∀ {m log}, m.Regular → op.Allowed m → P m log →
      P (op.perform site m) (log ++ op.log site m)) (hm : P m log) :
    P (m.after site ops) (log ++ m.courseLog site ops) := by
  induction ops generalizing m log with
  | nil =>
    rw [courseLog, List.append_nil]
    exact hm
  | cons op ops ih =>
    obtain ⟨hop, hops⟩ := ha
    obtain ⟨hthis, hlater⟩ := List.forall_mem_cons.1 hstep
    rw [courseLog, ← List.append_assoc]
    exact ih hops _ (op.regular h hop) hlater (hthis h hop hm)

/-- Every course keeps a machine regular. -/
theorem Admits.regular (ha : m.Admits site ops) (h : m.Regular) : (m.after site ops).Regular :=
  ha.invariant [] (P := fun m _ => m.Regular) h (fun op _ _ _ h hop _ => op.regular h hop) h

theorem fresh_regular (site : Site ν) (catalog : Catalog) (outside : ν) : (fresh site catalog outside).Regular :=
  .empty (.inl rfl) nofun

end Machine

end VirtualComputer
