import VirtualComputer.Proofs.Machine.History

/-!
# The steps of machines

What an operation does to the guest and the queue of a machine is a sequence of steps, each of which accounts for some
of what it adds to the history (`signal_steps`, `update_steps` and so on).  An invariant that all steps keep therefore
holds in all histories (`History.invariant`).
-/

namespace VirtualComputer

open Machine

/-! ## Steps -/

/-- The part of a machine that its history is about. -/
structure Situation where
  state : State
  guest : Option Guest
  inside : Option Delivery
  queue : SignalQueue
  catalog : Catalog
  /-- The bytes of the kernel, which the memory ceiling depends on. -/
  kernelMemory : Nat

def Machine.situation {ν : Type} (m : Machine ν) : Situation :=
  ⟨m.state, m.guest, m.inside, m.queue, m.catalog, m.ledger.kernelMemory⟩

/-- The situation after a teardown. -/
def Situation.closed (c : Situation) : Situation :=
  { c with state := .stopped, guest := none, inside := none, queue := c.queue.clear, kernelMemory := 0 }

/-- The states in which a run may go on whose kernel has a wish. -/
def Wish.Leads : Wish → State → Prop
  | .sleep _, next => next = .sleeping ∨ next = .yielded
  | .call, next => next = .synchronizedCall
  | .shutdown _, _ => False
  | .other, next => next = .suspended ∨ next = .yielded

/-- The states that a run may pass to while its guest is left alone. -/
inductive Situation.Passes (c : Situation) : State → Prop
  | resume (hs : c.state = .suspended ∨ c.state = .sleeping ∨ c.state = .paused) : Passes c .yielded
  | return (hs : c.state = .synchronizedReturnPaused) : Passes c .synchronizedReturn
  | stop (hs : c.state = .running ∧ c.inside.isSome ∨ c.state = .yielded ∨ c.state = .synchronizedReturn) :
      Passes c .stopping

/-- The states in which a deferred resume waits. -/
inductive State.Parks : State → State → Prop
  | yielded {s : State} (hs : s = .yielded) : Parks s .paused
  | return {s : State} (hs : s = .synchronizedReturn) : Parks s .synchronizedReturnPaused

/-- One step of a machine, beside what it adds to the history, where records that are loaded satisfy `R`. -/
inductive Step {ν : Type} (site : Site ν) (R : MachineRecord → Prop) : Situation → List Occurrence → Situation → Prop
  | accepted {c : Situation} {s : Signal} (hs : c.state ≠ .stopped) (hr : c.queue.signals.length < c.queue.capacity) :
      Step site R c [.accepted s] { c with queue.signals := c.queue.signals ++ [s] }
  | refused {c : Situation} {s : Signal} : Step site R c [.refused s] c
  | updated {c : Situation} {free : Bool} (hc : free → c.state ≠ .synchronizedCall)
      (hr : c.state = .running → c.inside.isSome) : Step site R c [.updated free] c
  | passed {c : Situation} {next : State} (hs : c.Passes next) : Step site R c [] { c with state := next }
  /-- A machine without a guest. -/
  | idle {c : Situation} {next : State} {catalog : Catalog} {kernelMemory : Nat} (hg : c.guest = none)
      (hi : c.inside = none) (hn : next = .stopped ∨ next = .rebooting)
      (hc : catalog.boot = c.catalog.boot ∧ catalog.kernel = c.catalog.kernel ∧ catalog.drivers = c.catalog.drivers) :
      Step site R c [] { c with state := next, catalog, kernelMemory }
  | started {c : Situation} {m : Machine ν} {g : Guest} (hs : c.state = .stopped) (hg : c.guest = none)
      (hi : c.inside = none) (hm : m.catalog = c.catalog) (hb : (bootKernel site m).1 = .ok g) :
      Step site R c [] { c with
        state := .suspended
        guest := some g
        kernelMemory := (bootKernel site m).2.ledger.kernelMemory }
  | parked {c : Situation} {next : State} (hi : c.inside = none) (hs : c.state.Parks next) :
      Step site R c [.parked] { c with state := next }
  | beganSignal {c : Situation} (hs : c.state = .yielded) (hi : c.inside = none) :
      Step site R c [.began (c.queue.pop.1.elim .nothing .signal)] { c with
        state := .running
        inside := some (c.queue.pop.1.elim .nothing .signal)
        queue := c.queue.pop.2 }
  | beganResult {c : Situation} (hs : c.state = .synchronizedReturn) (hi : c.inside = none) :
      Step site R c [.began .result] { c with state := .running, inside := some .result }
  /-- The guest has come to a `yield`, and the run goes on. -/
  | yielded {c : Situation} {m : Machine ν} {g : Guest} {d : Delivery} {w : Wish} {next : State}
      (hs : c.state = .running) (hi : c.inside = some d) (hg : c.guest = some g)
      (hr : (g.resume (host site) site.steps d m).1 = .ok (.yielded w)) (hn : w.Leads next) :
      Step site R c (g.resumption (host site) site.steps d m) { c with
        state := next
        guest := some (g.resume (host site) site.steps d m).2.1
        inside := none }
  /-- The guest has been resumed for the last time. -/
  | ended {c : Situation} {m : Machine ν} {g : Guest} {d : Delivery} (hi : c.inside = some d) (hg : c.guest = some g) :
      Step site R c (g.resumption (host site) site.steps d m ++ [.closed]) c.closed
  | calling {c : Situation} (hs : c.state = .synchronizedCall) (hi : c.inside = none) :
      Step site R c [.updated true] { c with state := .running }
  | returned {c : Situation} {m : Machine ν} {g : Guest} (hs : c.state = .running) (hi : c.inside = none)
      (hg : c.guest = some g) (hr : (g.invoke (host site) m).1 = .ok ()) :
      Step site R c (g.invocation (host site) m) { c with
        state := .synchronizedReturn
        guest := some (g.invoke (host site) m).2.1 }
  | failed {c : Situation} {m : Machine ν} {g : Guest} (hs : c.state = .running) (hi : c.inside = none)
      (hg : c.guest = some g) :
      Step site R c (g.invocation (host site) m ++ [.closed]) c.closed
  | closed {c : Situation} (hs : c.state ≠ .running) (hi : c.inside = none) : Step site R c [.closed] c.closed
  | loaded {c : Situation} {m : Machine ν} {r : MachineRecord} {s : State} {g g' : Guest} {ledger : Ledger}
      (hr : R r) (hs : c.state = .stopped) (hg : c.guest = none) (hi : c.inside = none) (hm : m.catalog = c.catalog)
      (hb : (bootGuest site m).1 = .ok g) (hcode : r.state = s.code) (hrun : s.Collapsed)
      (hrest : restoreGuest s g r = .ok g') (hst : g'.Standard)
      (hl : ledger.kernelMemory = r.kernelMemory.getD 0) :
      Step site R c
        [.loaded (restoredState s) { g'.remeasured with limit := some (ledger.ceiling site.settings.memoryBudget) }
          (((r.signals.getD []).map SignalRecord.toSignal).take c.queue.capacity)]
        { c with
          state := restoredState s
          guest := some { g'.remeasured with limit := some (ledger.ceiling site.settings.memoryBudget) }
          queue := c.queue.replace ((r.signals.getD []).map SignalRecord.toSignal)
          kernelMemory := ledger.kernelMemory }

/-- Steps one after the other. -/
inductive Steps {ν : Type} (site : Site ν) (R : MachineRecord → Prop) : Situation → List Occurrence → Situation → Prop
  | refl (c : Situation) : Steps site R c [] c
  | step {a b c : Situation} {l l' : List Occurrence} (h : Steps site R a l b) (hs : Step site R b l' c) :
      Steps site R a (l ++ l') c

section

variable {ν : Type} {site : Site ν} {R : MachineRecord → Prop} {a b c : Situation} {l l' : List Occurrence}

theorem Step.steps (h : Step site R a l b) : Steps site R a l b :=
  (Steps.refl a).step h

/-- A step that adds nothing to the history. -/
theorem Steps.quiet (h : Steps site R a l b) (hs : Step site R b [] c) : Steps site R a l c := by
  rw [← List.append_nil l]
  exact h.step hs

theorem Steps.trans (h : Steps site R a l b) (h' : Steps site R b l' c) : Steps site R a (l ++ l') c := by
  induction h' with
  | refl =>
    rw [List.append_nil]
    exact h
  | step _ hs ih =>
    rw [← List.append_assoc]
    exact ih.step hs

end

namespace SignalQueue

variable {s : Signal} {q : SignalQueue}

theorem push_room (h : q.signals.length < q.capacity) : q.push s = (true, { q with signals := q.signals ++ [s] }) :=
  if_pos h

theorem push_full (h : ¬q.signals.length < q.capacity) : q.push s = (false, q) :=
  if_neg h

end SignalQueue

namespace Machine

variable {ν : Type} {site : Site ν} {R : MachineRecord → Prop} {m : Machine ν} {g : Guest}

/-! ## Signals and teardowns -/

theorem signal_steps (site : Site ν) (R : MachineRecord → Prop) (s : Signal) (m : Machine ν) :
    Steps site R m.situation (m.signalLog s) (m.signal s).2.situation := by
  unfold signalLog signal
  split
  · exact Step.refused.steps
  · next hs =>
    rw [Bool.or_eq_true, decide_eq_true_eq, decide_eq_true_eq, not_or] at hs
    by_cases hr : m.queue.signals.length < m.queue.capacity
    · rw [SignalQueue.push_room hr]
      exact (Step.accepted (c := m.situation) (s := s) hs.1 hr).steps
    · rw [SignalQueue.push_full hr]
      exact Step.refused.steps

/-- A teardown ends the run, if there is one. -/
theorem close_situation (hi : m.inside = none) :
    m.closeLog = [] ∧ m.close.situation = m.situation ∧ m.state = .stopped ∧ m.guest = none ∨
      m.closeLog = [.closed] ∧ m.close.situation = m.situation.closed := by
  unfold closeLog close situation Situation.closed
  dsimp only
  split
  · next h =>
    rw [Bool.and_eq_true, decide_eq_true_eq] at h
    exact .inl ⟨rfl, rfl, h.1, Option.isNone_iff_eq_none.1 h.2⟩
  · exact .inr ⟨rfl, by rw [hi]; rfl⟩

theorem close_stopped (hs : m.state = .stopped) (hg : m.guest = none) : m.close.situation = m.situation := by
  rcases m with ⟨state, guest, _⟩
  cases hs
  cases hg
  rfl

theorem close_steps (site : Site ν) (R : MachineRecord → Prop) (hs : m.state ≠ .running) (hi : m.inside = none) :
    Steps site R m.situation m.closeLog m.close.situation := by
  rcases close_situation hi with ⟨hl, hc, -⟩ | ⟨hl, hc⟩ <;> rw [hl, hc]
  · exact .refl _
  · exact (Step.closed (c := m.situation) hs hi).steps

theorem close_epoch (m : Machine ν) : m.close.epoch = m.epoch + 1 := by
  unfold close
  dsimp only
  split <;> rfl

/-- A teardown that is seen by the new epoch. -/
theorem Free.close_situation (h : m.Free g) : m.close.situation = m.situation.closed := by
  rcases Machine.close_situation h.inside with ⟨-, -, -, hg⟩ | ⟨-, hc⟩
  · cases hg.symm.trans h.guest
  · exact hc

theorem Free.crash_situation (h : m.Free g) (message : String) : (m.crash message).situation = m.situation.closed :=
  Free.close_situation (m := { m with message := some message }) (g := g) ⟨h.guest, h.task, h.inside, h.void⟩

theorem crash_epoch (message : String) (m : Machine ν) : (m.crash message).epoch = m.epoch + 1 :=
  close_epoch { m with message := some message }

theorem schedule_situation (next : State) (ht : m.task = false) :
    (m.schedule next).situation = { m.situation with state := next } := by
  rw [schedule, ht]
  rfl

theorem schedule_epoch (next : State) (m : Machine ν) : (m.schedule next).epoch = m.epoch := by
  unfold schedule
  split <;> rfl

theorem endLog_next {m' : Machine ν} (h : m'.epoch = m.epoch + 1) : m.endLog m' = [.closed] :=
  if_neg fun he => by omega

theorem endLog_same {m' : Machine ν} (h : m'.epoch = m.epoch) : m.endLog m' = [] :=
  if_pos h

/-- What stays in its epoch ends no run. -/
theorem staying_steps {m' : Machine ν} (he : m'.epoch = m.epoch) (h : Steps site R m.situation [] m'.situation) :
    Steps site R m.situation (m.endLog m') m'.situation := by
  rw [endLog_same he]
  exact h

theorem stop_steps (site : Site ν) (R : MachineRecord → Prop) (h : m.Regular) :
    Steps site R m.situation m.stopLog m.stop.2.situation := by
  rcases m with ⟨state, guest, task, epoch, waiting, inside, _⟩
  have hclose {m : Machine ν} (hl : m.closeLog = [.closed]) (hs : m.state ≠ .running) (hi : m.inside = none) :
      Steps site R m.situation (m.endLog m.close) m.close.situation := by
    rw [endLog_next (close_epoch m), ← hl]
    exact close_steps site R hs hi
  unfold stopLog
  cases h with
  | empty hs hw =>
    rcases hs with rfl | rfl
    · exact staying_steps rfl (.refl _)
    · exact hclose rfl nofun rfl
  | resting hs hw => rcases hs with rfl | rfl | rfl | rfl | rfl <;> exact hclose rfl nofun rfl
  | queued hs hw =>
    rcases hs with rfl | rfl | rfl
    · exact staying_steps rfl (Step.passed (.stop (.inr (.inl rfl)))).steps
    · exact staying_steps rfl (Step.passed (.stop (.inr (.inr rfl)))).steps
    · exact staying_steps rfl (.refl _)
  | busy hs hw =>
    rcases hs with rfl | rfl
    · exact staying_steps rfl (Step.passed (.stop (.inl ⟨rfl, rfl⟩))).steps
    · exact staying_steps rfl (.refl _)

/-! ## Messages and calls -/

/-- A message does nothing, or it is a signal, a start or a stop. -/
theorem handle_cases (start : Machine ν → Bool × Machine ν) (log : List Occurrence) (msg : Message) (m : Machine ν) :
    (m.handle start msg).2 = m ∧ m.handleLog log msg = [] ∨
      (∃ s, (m.handle start msg).2 = (m.signal s).2 ∧ m.handleLog log msg = m.signalLog s) ∨
      (m.handle start msg).2 = (start m).2 ∧ m.handleLog log msg = log ∨
      (m.handle start msg).2 = m.stop.2 ∧ m.handleLog log msg = m.stopLog := by
  have hrelay (s : Signal) : (m.relay s).2 = m ∧ m.relayLog s = [] ∨
      (m.relay s).2 = (m.signal s).2 ∧ m.relayLog s = m.signalLog s := by
    unfold relay relayLog
    split
    · exact .inr ⟨rfl, rfl⟩
    · exact .inl ⟨rfl, rfl⟩
  obtain ⟨name, source, data⟩ := msg
  unfold handle
  dsimp only
  split
  · exact (hrelay _).imp_right fun h => .inl ⟨_, h⟩
  · exact (hrelay _).imp_right fun h => .inl ⟨_, h⟩
  · exact (hrelay _).imp_right fun h => .inl ⟨_, h⟩
  · cases data with
    | nil => exact .inl ⟨rfl, rfl⟩
    | cons a args =>
      cases a with
      | str name => exact .inr (.inl ⟨_, rfl, rfl⟩)
      | _ => exact .inl ⟨rfl, rfl⟩
  · exact .inr (.inr (.inl ⟨rfl, rfl⟩))
  · exact .inr (.inr (.inr ⟨rfl, rfl⟩))
  · exact .inl ⟨rfl, rfl⟩
  · refine .inl ⟨rfl, ?_⟩
    unfold handleLog
    split <;> first | rfl | contradiction

/-- What a message does, where `c` and `c'` are what matters of the machine before and after. -/
theorem handle_steps (view : Machine ν → Situation) {start : Machine ν → Bool × Machine ν} {log : List Occurrence}
    (hsignal : ∀ s, Steps site R (view m) (m.signalLog s) (view (m.signal s).2))
    (hstart : Steps site R (view m) log (view (start m).2))
    (hstop : Steps site R (view m) m.stopLog (view m.stop.2)) (msg : Message) :
    Steps site R (view m) (m.handleLog log msg) (view (m.handle start msg).2) := by
  rcases handle_cases start log msg m with ⟨h, hlog⟩ | ⟨s, h, hlog⟩ | ⟨h, hlog⟩ | ⟨h, hlog⟩ <;> rw [h, hlog]
  · exact .refl _
  · exact hsignal s
  · exact hstart
  · exact hstop

theorem Told.situation {m' : Machine ν} (h : m.Told m') : m'.situation = m.situation := by
  obtain ⟨told, outside, -, rfl⟩ := h
  rfl

/-- The situation of a machine that makes a call, which heeds a stop only later. -/
def calling (m : Machine ν) : Situation :=
  { m.situation with state := .running }

theorem Told.calling {m' : Machine ν} (h : m.Told m') : m'.calling = m.calling := by
  rw [Machine.calling, h.situation, Machine.calling]

theorem signal_calling_steps (site : Site ν) (R : MachineRecord → Prop) (s : Signal) (m : Machine ν) :
    Steps site R m.calling (m.signalLog s) (m.signal s).2.calling := by
  unfold signalLog signal
  split
  · exact Step.refused.steps
  · by_cases hr : m.queue.signals.length < m.queue.capacity
    · rw [SignalQueue.push_room hr]
      exact (Step.accepted (c := m.calling) (s := s) nofun hr).steps
    · rw [SignalQueue.push_full hr]
      exact Step.refused.steps

/-- A machine that is stopped while it makes a call is torn down later. -/
theorem stop_calling_steps (site : Site ν) (R : MachineRecord → Prop) (h : m.Calling) :
    Steps site R m.calling m.stopLog m.stop.2.calling := by
  have hs : m.stop.2 = { m with state := .stopping } := by
    rcases m with ⟨state, _⟩
    unfold stop
    rcases h with rfl | rfl <;> rfl
  unfold stopLog
  have hlog : m.endLog { m with state := .stopping } = [] := endLog_same rfl
  rw [hs, hlog]
  exact .refl _

theorem grant_steps (site : Site ν) (R : MachineRecord → Prop) (r : Request) (h : m.Calling) :
    Steps site R m.calling (m.grantLog r) (m.grant r).2.calling := by
  cases r with
  | signal s => exact signal_calling_steps site R s m
  | receive msg =>
    exact handle_steps calling (signal_calling_steps site R · m) (.refl _) (stop_calling_steps site R h) msg

theorem converse_steps (site : Site ν) (R : MachineRecord → Prop) : ∀ (x : Exchange ν) {m : Machine ν}, m.Calling →
    Steps site R m.calling (converseLog x m) (converse x m).2.calling
  | .answer _ _, _, _ => .refl _
  | .request r next, m, h => by
    have hg := grant_steps site R r h
    have hc := (grant_called r h).calling h
    rw [converseLog, converse]
    exact hg.trans (converse_steps site R (next (m.grant r).1) (m := (m.grant r).2.tell _) hc)

/-- Of all natives only `send` can have requests made of the machine. -/
theorem call_calling {n : Native} (hn : n ≠ .send) (c : Conditions) (args : List Val) (s : Session (Machine ν)) :
    (n.call (host site) c args s).2.world.calling = s.world.calling := by
  unfold Native.call
  split
  · rfl
  · cases n with
    | clock | time | uptime => exact (later_printed site _ s.world).told.calling
    | freeMemory | totalMemory | address | bootAddress | print => rfl
    | send => exact absurd rfl hn
    | _ => exact congrArg calling (Native.settle_world _ s)

/-- What the pending call does to its machine are the requests that are made meanwhile. -/
theorem callLog_steps (site : Site ν) (R : MachineRecord → Prop) (g : Guest) (h : m.Calling) :
    Steps site R m.calling (callLog site g m) (g.invoke (host site) m).2.2.calling := by
  unfold callLog Guest.invoke
  cases g.pending with
  | none => exact .refl _
  | some v =>
    dsimp only [Option.bind_some]
    rcases hv : v.callable? with _ | ⟨n, args⟩
    · exact .refl _
    · dsimp only
      by_cases hn : n = .send
      · subst hn
        dsimp only [Native.call]
        rw [if_neg (by decide)]
        cases Native.message args with
        | error e => exact .refl _
        | ok p => exact converse_steps site R _ (m := m.tell _) h
      · rw [call_calling hn]
        split
        · next hs =>
          cases hs
          exact absurd rfl hn
        · exact .refl _

/-! ## Tasks -/

section Beginning

variable {epoch : Nat}

theorem beginTask_void (he : m.epoch ≠ epoch) : beginTask site epoch m = m :=
  if_pos he

theorem beginTask_stopping (he : m.epoch = epoch) (hs : m.state = .stopping) :
    beginTask site epoch m = m.close := by
  rw [beginTask, if_neg (not_not_intro he), if_pos hs]

theorem beginTask_stalled (he : m.epoch = epoch) (hs : m.state ≠ .stopping) (hst : isStalled site m) :
    beginTask site epoch m = m.park := by
  rw [beginTask, if_neg (not_not_intro he), if_neg hs, if_pos hst]

theorem beginTask_yielded (he : m.epoch = epoch) (hs : m.state = .yielded) (hst : ¬isStalled site m)
    (hg : m.guest.isSome) : beginTask site epoch m = { m with
      state := .running
      inside := some (m.queue.pop.1.elim .nothing .signal)
      queue := m.queue.pop.2 } := by
  rw [beginTask, if_neg (not_not_intro he), if_neg (by rw [hs]; nofun), if_neg hst, hs]
  exact if_pos hg

theorem beginTask_return (he : m.epoch = epoch) (hs : m.state = .synchronizedReturn) (hst : ¬isStalled site m)
    (hg : m.guest.isSome) : beginTask site epoch m = { m with state := .running, inside := some .result } := by
  rw [beginTask, if_neg (not_not_intro he), if_neg (by rw [hs]; nofun), if_neg hst, hs]
  exact if_pos hg

theorem beginTaskLog_begun {m' : Machine ν} {d : Delivery} (hb : beginTask site epoch m = m')
    (hd : m'.inside = some d) : beginTaskLog site epoch m = [.began d] := by
  rw [beginTaskLog, hb, hd]

theorem beginTaskLog_closed {m' : Machine ν} (hb : beginTask site epoch m = m') (hd : m'.inside = none)
    (he : m'.epoch = m.epoch + 1) : beginTaskLog site epoch m = [.closed] := by
  rw [beginTaskLog, hb, hd]
  exact if_pos (by omega)

theorem beginTaskLog_parked {m' : Machine ν} (hb : beginTask site epoch m = m') (hd : m'.inside = none)
    (he : m'.epoch = m.epoch) (hs : m'.state ≠ m.state) : beginTaskLog site epoch m = [.parked] := by
  rw [beginTaskLog, hb, hd]
  exact (if_neg (not_not_intro he)).trans (if_pos hs)

theorem beginTaskLog_void (hi : m.inside = none) (he : m.epoch ≠ epoch) : beginTaskLog site epoch m = [] := by
  rw [beginTaskLog, beginTask_void he, hi]
  exact (if_neg (not_not_intro rfl)).trans (if_neg (not_not_intro rfl))

end Beginning

/-- A task that waits begins a resume, or is put off, or ends the run. -/
theorem beginTask_steps (site : Site ν) (R : MachineRecord → Prop) (h : m.Regular) (hi : m.inside = none) {epoch : Nat}
    (he : epoch ∈ m.waiting) :
    Steps site R m.situation (beginTaskLog site epoch { m with waiting := m.waiting.erase epoch })
      (beginTask site epoch { m with waiting := m.waiting.erase epoch }).situation := by
  obtain ⟨m₀, hm⟩ : ∃ m₀, { m with waiting := m.waiting.erase epoch } = m₀ := ⟨_, rfl⟩
  obtain ⟨hstate, hguest, hinside, hepoch, hsituation⟩ : m₀.state = m.state ∧ m₀.guest = m.guest ∧
      m₀.inside = m.inside ∧ m₀.epoch = m.epoch ∧ m₀.situation = m.situation := by
    subst hm
    exact ⟨rfl, rfl, rfl, rfl, rfl⟩
  rw [hi] at hinside
  rw [hm, ← hsituation]
  by_cases heq : m₀.epoch = epoch
  · subst heq
    obtain ⟨hs, hg⟩ := h.due hi (hepoch ▸ he)
    rw [← hstate] at hs
    rw [← hguest] at hg
    have hparked (hst : isStalled site m₀) (hp : m₀.state.Parks m₀.park.state) (hne : m₀.park.state ≠ m₀.state)
        (hs : m₀.state ≠ .stopping) : Steps site R m₀.situation (beginTaskLog site m₀.epoch m₀)
          (beginTask site m₀.epoch m₀).situation := by
      have hb : beginTask site m₀.epoch m₀ = m₀.park := beginTask_stalled rfl hs hst
      rw [beginTaskLog_parked hb hinside rfl hne, hb]
      exact (Step.parked (c := m₀.situation) hinside hp).steps
    rcases hs with hs | hs | hs
    · by_cases hst : isStalled site m₀
      · have hp : m₀.park.state = .paused := by rw [park, hs]; rfl
        exact hparked hst (by rw [hp]; exact .yielded hs) (by rw [hp, hs]; nofun) (by rw [hs]; nofun)
      · have hb := beginTask_yielded rfl hs hst hg
        rw [beginTaskLog_begun hb rfl, hb]
        exact (Step.beganSignal (c := m₀.situation) hs hinside).steps
    · by_cases hst : isStalled site m₀
      · have hp : m₀.park.state = .synchronizedReturnPaused := by rw [park, hs]; rfl
        exact hparked hst (by rw [hp]; exact .return hs) (by rw [hp, hs]; nofun) (by rw [hs]; nofun)
      · have hb := beginTask_return rfl hs hst hg
        rw [beginTaskLog_begun hb rfl, hb]
        exact (Step.beganResult (c := m₀.situation) hs hinside).steps
    · have hb : beginTask site m₀.epoch m₀ = m₀.close := beginTask_stopping rfl hs
      rcases close_situation hinside with ⟨-, -, hstopped, -⟩ | ⟨-, hc⟩
      · cases hstopped.symm.trans hs
      · rw [beginTaskLog_closed hb (congrArg Situation.inside hc) (close_epoch m₀), hb, hc]
        have hrunning : m₀.state ≠ .running := by rw [hs]; nofun
        exact (Step.closed (c := m₀.situation) hrunning hinside).steps
  · rw [beginTask_void heq, beginTaskLog_void hinside heq]
    exact .refl _

/-- The situation of a machine that is torn down, in which a reboot may be due. -/
def TornDown (m m' : Machine ν) : Prop :=
  m'.epoch = m.epoch + 1 ∧
    ∃ next, (next = .stopped ∨ next = .rebooting) ∧ m'.situation = { m.situation.closed with state := next }

theorem Free.close_torn (h : m.Free g) : m.TornDown m.close :=
  ⟨close_epoch m, .stopped, .inl rfl, h.close_situation⟩

theorem Free.crash_torn (h : m.Free g) (message : String) : m.TornDown (m.crash message) :=
  ⟨crash_epoch message m, .stopped, .inl rfl, h.crash_situation message⟩

/-- What a machine has come to whose guest waits for what it wishes. -/
def Rested (w : Wish) (m m' : Machine ν) : Prop :=
  m'.epoch = m.epoch ∧ ∃ next, w.Leads next ∧ m'.situation = { m.situation with state := next }

theorem Granted.rested_or_torn {w : Wish} {m' : Machine ν} (h : m.Granted w m') (hm : m.Free g) :
    Rested w m m' ∨ m.TornDown m' := by
  cases h with
  | asleep => exact .inl ⟨rfl, .sleeping, .inl rfl, rfl⟩
  | idle => exact .inl ⟨rfl, .suspended, .inl rfl, rfl⟩
  | resumed hw =>
    refine .inl ⟨schedule_epoch _ m, .yielded, ?_, schedule_situation .yielded hm.task⟩
    rcases hw with rfl | ⟨seconds, rfl⟩ <;> exact .inr rfl
  | calls => exact .inl ⟨rfl, .synchronizedCall, rfl, rfl⟩
  | closed => exact .inr hm.close_torn
  | reboots =>
    refine .inr ⟨close_epoch m, .rebooting, .inr rfl, ?_⟩
    show { m.close.situation with state := .rebooting } = _
    rw [hm.close_situation]

/-- After a resume the run goes on only if the guest has come to a `yield` and nobody has asked for a stop. -/
theorem Reacted.rested_or_torn {r : Except Fault Progress} {m' : Machine ν} (h : m.Reacted r m') (hm : m.Free g) :
    (∃ w, r = .ok (.yielded w) ∧ m.state ≠ .stopping ∧ Rested w m m') ∨ m.TornDown m' := by
  cases h with
  | stopped => exact .inr hm.close_torn
  | @granted w _ hs hgranted => exact (hgranted.rested_or_torn hm).imp_left fun hw => ⟨w, rfl, hs, hw⟩
  | ended _ notices message => exact .inr (hm.noticed (notices.map .noticed) message).close_torn

/-- The machine that goes on after a resume. -/
theorem finishTask_busy (site : Site ν) {d : Delivery} (hi : m.inside = some d) (hg : m.guest = some g)
    (hw : Void m.epoch m.waiting) : ∃ m' : Machine ν,
      finishTask site m = react site (g.resume (host site) site.steps d m).1 m' ∧
        m'.Free (g.resume (host site) site.steps d m).2.1 ∧ m'.epoch = m.epoch ∧
        m'.situation =
          { m.situation with guest := some (g.resume (host site) site.steps d m).2.1, inside := none } := by
  obtain ⟨texts, outside, hf⟩ := finishTask_resumed site hi hg
  exact ⟨_, hf, ⟨rfl, rfl, rfl, hw⟩, rfl, rfl⟩

/-- A resume that finishes leaves the guest waiting or ends the run. -/
theorem finishTask_steps (R : MachineRecord → Prop) (h : m.Regular) :
    Steps site R m.situation (finishTaskLog site m) (finishTask site m).situation := by
  cases hi : m.inside with
  | none =>
    rw [finishTask_idle site hi, finishTaskLog, hi]
    exact .refl _
  | some d =>
    obtain ⟨hs, hw, g, hg⟩ := h.resuming hi
    obtain ⟨m', hf, hfree, hepoch, hc⟩ := finishTask_busy site hi hg hw
    have hlog : finishTaskLog site m =
        g.resumption (host site) site.steps d m ++ m.endLog (finishTask site m) := by
      rw [finishTaskLog, hi, hg]
    have hstate : m'.state = m.state := congrArg Situation.state hc
    rw [hlog, hf]
    rcases (react_reacted site _ m').rested_or_torn hfree with
      ⟨w, hr, hns, he, next, hlead, hnext⟩ | ⟨he, next, hn, hnext⟩
    · rw [hnext, hc, endLog_same (he.trans hepoch), List.append_nil]
      have hrun : m.state = .running := hs.resolve_right (hstate ▸ hns)
      exact (Step.yielded (c := m.situation) hrun hi hg hr hlead).steps
    · rw [hnext, hc, endLog_next (he.trans (congrArg (· + 1) hepoch))]
      have hended : Step site R m.situation _ m.situation.closed := .ended (m := m) hi hg
      exact hended.steps.quiet (.idle rfl rfl hn ⟨rfl, rfl, rfl⟩)

/-! ## Synchronized calls -/

theorem failCall_torn (h : m.Free g) (f : Fault) : m.TornDown (m.failCall f) := by
  unfold failCall
  split <;> exact (h.tell _).crash_torn _

theorem synchronizeLog_free (site : Site ν) (hi : m.inside = none) (hg : m.guest = some g) :
    synchronizeLog site m = callLog site g { m with state := .running } ++
      g.invocation (host site) { m with state := .running } ++ m.endLog (synchronize site m) := by
  rcases m with ⟨state, guest, task, epoch, waiting, inside, _⟩
  cases hi
  cases hg
  rfl

/-- The call is made between the requests that it has led to and what follows from its result. -/
theorem synchronize_steps (site : Site ν) (R : MachineRecord → Prop) (h : m.Regular)
    (hs : m.state = .synchronizedCall) :
    Steps site R m.situation (.updated true :: synchronizeLog site m) (synchronize site m).situation := by
  obtain ⟨g, hfree⟩ := h.free_call hs
  obtain ⟨m₁, m₂', hm₁, hm₂', hsync⟩ := synchronize_free site hfree.inside hfree.guest
  have hcalling : m₁.Calling := .inl (by rw [hm₁])
  have hfree₁ : m₁.Free g := by
    subst hm₁
    exact ⟨hfree.guest, hfree.task, hfree.inside, hfree.void⟩
  have hcalled := invoke_called site g hcalling
  have hsteps := callLog_steps site R g hcalling
  have hfree₂ := hcalled.free hfree₁ (g.invoke (host site) m₁).2.1
  obtain ⟨m₂, hm₂⟩ : ∃ m₂ : Machine ν, (g.invoke (host site) m₁).2.2 = m₂ := ⟨_, rfl⟩
  rw [hm₂] at hcalled hsteps hm₂' hfree₂
  have hguest : m₂.guest = some g := by
    rcases hcalled with hl | hl <;> exact (congrArg Lifecycle.guest hl).trans hfree₁.guest
  have hepoch : m₂.epoch = m.epoch := by
    have he : m₁.epoch = m.epoch := by rw [hm₁]
    rcases hcalled with hl | hl <;> exact (congrArg Lifecycle.epoch hl).trans he
  have hlog : synchronizeLog site m =
      callLog site g m₁ ++ g.invocation (host site) m₁ ++ m.endLog (synchronize site m) := by
    rw [synchronizeLog_free site hfree.inside hfree.guest, hm₁]
  have hcall : Step site R m.situation [.updated true] m₁.calling := by
    rw [hm₁]
    exact .calling hs hfree.inside
  have hbefore := hcall.steps.trans hsteps
  have htorn {m' : Machine ν} (ht : TornDown { m₂ with guest := some (g.invoke (host site) m₁).2.1 } m') :
      Steps site R m.situation (.updated true :: (callLog site g m₁ ++ g.invocation (host site) m₁ ++ m.endLog m'))
        m'.situation := by
    obtain ⟨he, next, hn, hc⟩ := ht
    rw [hc, endLog_next (he.trans (congrArg (· + 1) hepoch)), List.append_assoc]
    have hfailed : Step site R m₂.calling _ m₂.calling.closed := .failed (m := m₁) rfl hfree₂.inside hguest
    exact (hbefore.step hfailed).quiet (.idle rfl rfl hn ⟨rfl, rfl, rfl⟩)
  subst hm₂'
  rw [hlog]
  rcases hsync with hsync | ⟨hr, hsync⟩ | ⟨f, hsync⟩ <;> rw [hsync]
  · exact htorn hfree₂.close_torn
  · have hreturned : Step site R m₂.calling _ _ := .returned (m := m₁) rfl hfree₂.inside hguest hr
    rw [schedule_situation _ hfree₂.task, endLog_same, List.append_nil]
    · exact hbefore.step hreturned
    · exact (schedule_epoch _ _).trans hepoch
  · exact htorn (failCall_torn hfree₂ _)

/-! ## Starts and updates -/

/-- Signals that arrive one after the other while there is a run. -/
theorem push_steps (site : Site ν) (R : MachineRecord → Prop) : ∀ (ss : List Signal) {c : Situation},
    c.state ≠ .stopped →
      Steps site R c (pushLog ss c.queue) { c with queue := ss.foldl (fun q s => (q.push s).2) c.queue }
  | [], c, _ => .refl c
  | s :: ss, c, hs => by
    have hrest := push_steps site R ss (c := { c with queue := (c.queue.push s).2 }) hs
    rw [pushLog, List.foldl_cons]
    by_cases hr : c.queue.signals.length < c.queue.capacity
    · rw [SignalQueue.push_room hr] at hrest ⊢
      exact (Step.accepted hs hr).steps.trans hrest
    · rw [SignalQueue.push_full hr] at hrest ⊢
      exact (Step.refused (c := c)).steps.trans hrest

/-- The signals that tell of the neighbors of a machine. -/
def neighbors (site : Site ν) (m : Machine ν) : List Signal :=
  (site.peers m.outside).map fun peer => ⟨"component_added", [.str peer]⟩

theorem beginRun_situation (site : Site ν) (g : Guest) (m : Machine ν) : (beginRun site g m).situation =
    { m.situation with
      state := .suspended
      guest := some g
      queue := (neighbors site m).foldl (fun q s => (q.push s).2) m.queue } := by
  rw [neighbors, List.foldl_map]
  rfl

/-- Building a guest changes no more than the memory of the kernel. -/
theorem bootKernel_situation (site : Site ν) (m : Machine ν) : (bootKernel site m).2.situation =
      { m.situation with kernelMemory := (bootKernel site m).2.ledger.kernelMemory } ∧
    m.Elapses (bootKernel site m).2.outside := by
  obtain ⟨told, ledger, outside, helapses, h⟩ := bootKernel_told site m
  rw [h]
  exact ⟨rfl, helapses⟩

/-- A start goes on from what booting the kernel has come to. -/
theorem start_booted (hs : m.state = .stopped) {now : Int} (hnow : site.worldTime m.outside = now) {m₀ : Machine ν}
    (hm : m₀ = { m with ledger := { m.ledger with worldTime := now, started := now } }) :
    (∀ g m', bootKernel site m₀ = (.ok g, m') → start site m = (true, beginRun site g m')) ∧
      ∀ f m', bootKernel site m₀ = (.error f, m') → start site m =
        (false, { m' with ledger := m'.ledger.reset, message := f.display }.tell (.noticed (.startFailed f))) := by
  subst hnow
  refine ⟨fun g m' hb => ?_, fun f m' hb => ?_⟩
  all_goals
    unfold start
    rw [if_neg (not_not_intro hs)]
    dsimp only
    rw [← hm, hb]

/-- A machine without a run starts with the guest that can be built. -/
theorem start_stopped (site : Site ν) (hs : m.state = .stopped) : ∃ m₀ : Machine ν, m₀.situation = m.situation ∧
    m₀.outside = m.outside ∧
      (∀ g m', bootKernel site m₀ = (.ok g, m') → start site m = (true, beginRun site g m')) ∧
      ∀ f m', bootKernel site m₀ = (.error f, m') → start site m =
        (false, { m' with ledger := m'.ledger.reset, message := f.display }.tell (.noticed (.startFailed f))) :=
  ⟨{ m with ledger := { m.ledger with
    worldTime := site.worldTime m.outside, started := site.worldTime m.outside } }, rfl, rfl, start_booted hs rfl rfl⟩

/-- A start builds a guest, which the neighbors are told to. -/
theorem start_steps (site : Site ν) (R : MachineRecord → Prop) (h : m.Regular) :
    Steps site R m.situation (startLog site m) (start site m).2.situation := by
  unfold startLog
  by_cases hs : m.state = .stopped
  · obtain ⟨hl, -⟩ := (h.sound hs).stopped hs
    have hguest : m.guest = none := congrArg Lifecycle.guest hl
    have hinside : m.inside = none := congrArg Lifecycle.inside hl
    obtain ⟨m₀, hsituation, houtside, hok, herror⟩ := start_stopped site hs
    obtain ⟨hboot, hboot'⟩ := bootKernel_situation site m₀
    rw [hsituation] at hboot
    have hstarted := @Step.started ν site R m.situation m₀
    rcases hb : bootKernel site m₀ with ⟨f | g, m'⟩ <;> rw [hb] at hboot hboot' hstarted <;> dsimp only at hboot hboot'
    · rw [herror f m' hb, if_neg nofun]
      refine Step.steps ?_
      show Step site R m.situation [] { m'.situation with kernelMemory := 0 }
      rw [hboot]
      exact .idle hguest hinside (.inl hs) ⟨rfl, rfl, rfl⟩
    · have hqueue : m'.queue = m.queue := congrArg Situation.queue hboot
      have hneighbors : neighbors site m' = neighbors site m := by
        rw [neighbors, neighbors, hboot' ((congrArg Situation.inside hsituation).trans hinside), houtside]
      have hpush := push_steps site R (neighbors site m) (c := { m.situation with
        state := .suspended
        guest := some g
        kernelMemory := m'.ledger.kernelMemory }) nofun
      rw [hok g m' hb, if_pos rfl, beginRun_situation, hneighbors, hqueue, hboot]
      exact (hstarted hs hguest hinside (congrArg Situation.catalog hsituation) rfl).steps.trans hpush
  · rw [show start site m = (false, m) from if_pos hs]
    exact .refl _

theorem receive_steps (site : Site ν) (R : MachineRecord → Prop) (h : m.Regular) (msg : Message) :
    Steps site R m.situation (receiveLog site msg m) (receive site msg m).2.situation :=
  handle_steps situation (signal_steps site R · m) (start_steps site R h) (stop_steps site R h) msg

/-- How a tick moves a run on. -/
inductive Ticks (site : Site ν) (R : MachineRecord → Prop) : Situation → Action → Situation → Prop
  | nothing {a b : Situation} (hs : a.state ≠ .synchronizedCall) (h : Steps site R a [] b) :
      Ticks site R a .nothing b
  | reboot {a : Situation} (hs : a.state = .rebooting) : Ticks site R a .reboot { a with state := .stopped }
  | call {a : Situation} (hs : a.state = .synchronizedCall) : Ticks site R a .call a

theorem Advanced.ticks {a : Action} {m' : Machine ν} (h : m.Advanced a m') (site : Site ν) (R : MachineRecord → Prop)
    (hm : m.Regular) : Ticks site R m.situation a m'.situation := by
  have hscheduled {next : State} (hs : m.state.Resting) (hp : m.situation.Passes next) :
      Steps site R m.situation [] (m.schedule next).situation := by
    obtain ⟨g, hfree⟩ := hm.free hs
    rw [schedule_situation next hfree.task]
    exact (Step.passed (c := m.situation) hp).steps
  cases h with
  | kept hs => exact .nothing hs (.refl _)
  | resumed hs =>
    have hne : m.state ≠ .synchronizedCall := by rcases hs with hs | hs | hs <;> rw [hs] <;> nofun
    exact .nothing hne (hscheduled (hs.imp_right (.imp_right .inl)) (.resume hs))
  | returned hs =>
    have hne : m.state ≠ .synchronizedCall := by rw [hs]; nofun
    exact .nothing hne (hscheduled (.inr (.inr (.inr (.inr hs)))) (.return hs))
  | reboots hs => exact .reboot hs
  | calls hs => exact .call hs

theorem shown_situation (ended : Bool) (m : Machine ν) : (shown site ended m).situation = m.situation := by
  obtain ⟨message, told, h⟩ := shown_told site ended m
  rw [h]
  rfl

/-- What an update does before it calls or starts anything. -/
theorem ticked_ticks (site : Site ν) (R : MachineRecord → Prop) (h : m.Regular) :
    Ticks site R m.situation (ticked site m).1 (ticked site m).2.situation ∧ (ticked site m).2.Regular := by
  rw [ticked_noted]
  refine ⟨?_, ((advance_advanced (noted site m)).regular h).1.of_eq (shown_lifecycle _ _)⟩
  dsimp only
  rw [shown_situation]
  exact (advance_advanced (noted site m)).ticks site R h

/-- A tick queues a resume, makes the call that the kernel has asked for, or starts again after a reboot. -/
theorem update_steps (R : MachineRecord → Prop) (h : m.Regular) :
    Steps site R m.situation (updateLog site m) (update site m).situation := by
  obtain ⟨hticks, hregular⟩ := ticked_ticks site R h
  rw [update_ticked, updateLog]
  obtain ⟨⟨action, m'⟩, ht⟩ : ∃ t, ticked site m = t := ⟨_, rfl⟩
  obtain ⟨c, hc⟩ : ∃ c, c = m'.situation := ⟨_, rfl⟩
  rw [ht] at hticks hregular ⊢
  dsimp only at hticks hregular ⊢
  rw [← hc] at hticks
  have hupdated (hs : m.state ≠ .synchronizedCall) : Steps site R m.situation [.updated m.inside.isNone] m.situation :=
    (Step.updated (c := m.situation) (fun _ => hs) h.inside_states.2).steps
  cases hticks with
  | nothing hs hquiet =>
    rw [hc] at hquiet
    exact (hupdated hs).trans hquiet
  | reboot hs =>
    have hstopped : m'.state = .stopped := (congrArg Situation.state hc).symm
    have hl := ((hregular.sound hstopped).stopped hstopped).1
    have hinside : m'.inside = none := congrArg Lifecycle.inside hl
    have hguest : m.guest = none := (congrArg Situation.guest hc).trans (congrArg Lifecycle.guest hl)
    have hidle : Step site R m.situation [] m'.situation := by
      rw [← hc]
      exact .idle hguest ((congrArg Situation.inside hc).trans hinside) (.inl rfl) ⟨rfl, rfl, rfl⟩
    have hstart := start_steps site R (hregular.close hinside).regular
    exact ((hupdated (by rw [show m.state = .rebooting from hs]; nofun)).quiet hidle).trans
      ((close_steps site R (by rw [hstopped]; nofun) hinside).trans hstart)
  | call hs =>
    have hcall := synchronize_steps site R hregular ((congrArg Situation.state hc).symm.trans hs)
    obtain ⟨g, hfree⟩ := h.free_call hs
    rw [← hc] at hcall
    rw [hfree.inside]
    exact hcall

/-- An update that finds the guest held puts the call off. -/
theorem deferred_steps (site : Site ν) (R : MachineRecord → Prop) (hi : m.inside = none)
    (hs : m.state = .synchronizedCall) :
    Steps site R m.situation (updateLog site { m with inside := some .nothing }) (m.deferred site).situation := by
  rcases m with ⟨state, guest, task, epoch, waiting, inside, _⟩
  cases hi
  cases hs
  have hlog {m : Machine ν} (hs : m.state = .synchronizedCall)
      (hl : updateLog site { m with inside := some .nothing } = [.updated false])
      (hc : (m.deferred site).situation = m.situation) :
      Steps site R m.situation (updateLog site { m with inside := some .nothing }) (m.deferred site).situation := by
    have hput : Step site R m.situation [.updated false] m.situation :=
      .updated nofun fun hr => by cases hs.symm.trans hr
    rw [hl, hc]
    exact hput.steps
  refine hlog rfl ?_ ?_
  · simp [updateLog, ticked, advance, takeMessage, announceEnd, showMessage, performLog, synchronizeLog]
  · simp [deferred, update, advance, takeMessage, announceEnd, showMessage, perform, synchronize, situation]

/-! ## Records -/

/-- What a load takes from a record of its catalog is the address. -/
theorem readdressed_catalog (r : MachineRecord) (m : Machine ν) :
    (m.readdressed r).catalog.boot = m.catalog.boot ∧ (m.readdressed r).catalog.kernel = m.catalog.kernel ∧
      (m.readdressed r).catalog.drivers = m.catalog.drivers := by
  unfold readdressed
  cases r.rom <;> exact ⟨rfl, rfl, rfl⟩

theorem tryLoad_stopped {r : MachineRecord} (hc : r.state = State.stopped.code) :
    tryLoad site r m = (.ok (), { m.readdressed r with message := r.message }) := by
  unfold tryLoad
  dsimp only
  rw [hc, State.ofCode_code]
  rfl

theorem tryLoad_rebooting {r : MachineRecord} (hc : r.state = State.rebooting.code) : tryLoad site r m =
    (.ok (), { m.readdressed r with state := .rebooting, announced := true, message := r.message }) := by
  unfold tryLoad
  dsimp only
  rw [hc, State.ofCode_code]
  rfl

theorem tryLoad_run {r : MachineRecord} {s : State} (hs : s.Collapsed) (hc : r.state = s.code) :
    tryLoad site r m = loadRun site s r (m.readdressed r) := by
  unfold tryLoad
  dsimp only
  rw [hc, State.ofCode_code]
  rcases hs with rfl | rfl | rfl | rfl <;> rfl

/-- What a load adds once the run that there was has ended. -/
def restoredLog (r : MachineRecord) (capacity : Nat) : Except Failure Unit × Machine ν → List Occurrence
  | (.ok (), m') => m'.guest.elim [] fun g =>
      [.loaded m'.state g (((r.signals.getD []).map SignalRecord.toSignal).take capacity)]
  | (.error _, _) => []

theorem restoredLog_error {r : MachineRecord} {capacity : Nat} {t : Except Failure Unit × Machine ν} {f : Failure}
    (h : t.1 = .error f) : restoredLog r capacity t = [] := by
  rcases t with ⟨_ | _, _⟩ <;> cases h
  rfl

/-- A record that has been saved replaces the run of a stopped machine, which stays stopped if it cannot. -/
theorem tryLoad_steps {r : MachineRecord} (hs : m.state = .stopped) (hg : m.guest = none) (hi : m.inside = none)
    (hr : R r) (hsaved : r.Saved) (hst : ∀ g, (tryLoad site r m).2.guest = some g → g.Standard) :
    Steps site R m.situation (restoredLog r m.queue.capacity (tryLoad site r m)) (tryLoad site r m).2.situation := by
  obtain ⟨m₀, hm₀⟩ : ∃ m₀, m₀ = m.readdressed r := ⟨_, rfl⟩
  have hidle {next : State} (hn : next = .stopped ∨ next = .rebooting) :
      Step site R m.situation [] { m₀.situation with state := next } := by
    rw [hm₀]
    exact .idle (c := m.situation) hg hi hn (readdressed_catalog r m)
  have hguest : m₀.guest = none := by rw [hm₀]; exact hg
  have hinside : m₀.inside = none := by rw [hm₀]; exact hi
  have hstopped : m₀.state = .stopped := by rw [hm₀]; exact hs
  have hqueue : m₀.queue = m.queue := by rw [hm₀]; rfl
  have hstay : Steps site R m.situation [] m₀.situation := by
    have h := (hidle (.inl rfl)).steps
    rw [← hstopped] at h
    exact h
  rcases hsaved with (hcode | hcode) | ⟨s, co, hcode, hcollapsed, -, -⟩
  · rw [tryLoad_stopped hcode, ← hm₀]
    show Steps site R m.situation (m₀.guest.elim [] _) m₀.situation
    rw [hguest]
    exact hstay
  · rw [tryLoad_rebooting hcode, ← hm₀]
    show Steps site R m.situation (m₀.guest.elim [] _) { m₀.situation with state := .rebooting }
    rw [hguest]
    exact (hidle (.inr rfl)).steps
  · rw [tryLoad_run hcollapsed hcode, ← hm₀] at hst ⊢
    rcases hload : (loadRun site s r m₀).1 with f | u
    · have htold := loadRun_told hload
      rw [restoredLog_error hload, htold.situation]
      exact hstay
    · obtain ⟨g, g', m', hboot, htold, hrest, hrun⟩ := loadRun_ok hload
      rw [hrun] at hst ⊢
      have hguest' : g'.Standard := ⟨(hst _ rfl).persist, (hst _ rfl).unpersist⟩
      obtain ⟨ledger, hledger⟩ : ∃ ledger : Ledger, ledger = { m'.ledger with
          kernelMemory := r.kernelMemory.getD 0
          started := r.started.getD 0
          cpuTime := r.cpuTime.getD 0 } := ⟨_, rfl⟩
      have hmemory : ledger.kernelMemory = r.kernelMemory.getD 0 := by rw [hledger]
      have hloaded : Step site R m₀.situation _ _ :=
        .loaded (m := m₀) hr hstopped hguest hinside rfl hboot hcode hcollapsed hrest hguest' hmemory
      have hloaded := hstay.trans hloaded.steps
      rw [List.nil_append] at hloaded
      subst hledger
      obtain ⟨told, outside, -, rfl⟩ := htold
      rw [← hqueue]
      exact hloaded

/-- A load ends the run that there is, and goes on with the one of the record. -/
theorem load_steps {r : MachineRecord} (h : m.Sound) (hi : m.inside = none) (hr : R r) (hsaved : r.Saved)
    (hst : ∀ g, (load site r m).guest = some g → g.Standard) :
    Steps site R m.situation (loadLog site r m) (load site r m).situation := by
  have hrunning (hr : m.state = .running) : False := by
    have hinside := h.inside_states.2 hr
    rw [hi] at hinside
    cases hinside
  have hclose := close_steps site R hrunning hi
  have hl := ((h.close hi).stopped (close_state m)).1
  have hqueue : m.close.queue.capacity = m.queue.capacity := by
    unfold close
    dsimp only
    split <;> rfl
  have hlog : loadLog site r m = m.closeLog ++ restoredLog r m.close.queue.capacity (tryLoad site r m.close) := by
    rw [hqueue]
    rfl
  have htry := @tryLoad_steps ν site R m.close r (close_state m) (congrArg Lifecycle.guest hl)
    (congrArg Lifecycle.inside hl) hr hsaved
  rw [hlog]
  unfold load at hst ⊢
  rcases ht : tryLoad site r m.close with ⟨f | _, m'⟩ <;> rw [ht] at hst htry
  · have hstopped := @tryLoad_error ν site m.close r hsaved f (by rw [ht])
    rw [ht, hl] at hstopped
    have hguest : m'.guest = none := congrArg Lifecycle.guest hstopped
    have hend : (m'.tell (.noticed (.discarded f))).close.situation = m'.situation :=
      close_stopped (m := m'.tell _) (congrArg Lifecycle.state hstopped) hguest
    show Steps site R m.situation _ (m'.tell (.noticed (.discarded f))).close.situation
    rw [hend]
    refine hclose.trans (htry fun g hg => ?_)
    cases hguest.symm.trans hg
  · exact hclose.trans (htry hst)

end Machine

/-! ## All histories -/

/-- A record that has been saved with the library's own entry points by a machine of which `P` holds. -/
def Kept (P : {ν : Type} → Site ν → Situation → List Occurrence → Prop) (r : MachineRecord) : Prop :=
  ∃ (μ : Type) (origin : Site μ) (saved : Machine μ) (log : List Occurrence), P origin saved.situation log ∧
    saved.Sound ∧ saved.inside = none ∧ (∀ g, saved.guest = some g → g.Standard) ∧ saved.save.1 = .ok r

section

variable {ν : Type} {site : Site ν} {R : MachineRecord → Prop} {a b : Situation} {log l : List Occurrence}

/-- What every step keeps is kept by steps that follow each other. -/
theorem Steps.invariant {P : Situation → List Occurrence → Prop}
    (hstep : ∀ {a b : Situation} {log l : List Occurrence}, P a log → Step site R a l b → P b (log ++ l))
    (h : Steps site R a l b) (ha : P a log) : P b (log ++ l) := by
  induction h with
  | refl =>
    rw [List.append_nil]
    exact ha
  | step _ hs ih =>
    rw [← List.append_assoc]
    exact hstep ih hs

/-- What holds of new machines and is kept by every step holds in all histories. -/
theorem History.invariant (P : {ν : Type} → Site ν → Situation → List Occurrence → Prop)
    (hfresh : ∀ {ν : Type} (site : Site ν) (catalog : Catalog) (outside : ν),
      P site (Machine.fresh site catalog outside).situation [])
    (hstep : ∀ {ν : Type} {site : Site ν} {a b : Situation} {log l : List Occurrence}, P site a log →
      Step site (Kept P) a l b → P site b (log ++ l))
    {m : Machine ν} (h : History site m log) : P site m.situation log := by
  have hsteps {ν : Type} {site : Site ν} {a b : Situation} {log l : List Occurrence}
      (h : Steps site (Kept P) a l b) (ha : P site a log) : P site b (log ++ l) :=
    h.invariant (P := P site) hstep ha
  induction h with
  | fresh site catalog outside => exact hfresh site catalog outside
  | start h ih => exact hsteps (start_steps _ _ h.sound.regular) ih
  | stop h ih => exact hsteps (stop_steps _ _ h.sound.regular) ih
  | signal _ s ih => exact hsteps (signal_steps _ _ s _) ih
  | update h ih => exact hsteps (update_steps _ h.sound.regular) ih
  | deferred h hs ih =>
    obtain ⟨g, hfree, -, -⟩ := h.sound.free_call hs
    exact hsteps (deferred_steps _ _ hfree.inside hs) ih
  | receive h msg ih => exact hsteps (receive_steps _ _ h.sound.regular msg) ih
  | save _ _ ih =>
    rw [(save_told _).situation]
    exact ih
  | load h hi hs hsi hr hss hst ih ihs =>
    exact hsteps (load_steps h.sound hi ⟨_, _, _, _, ihs, hs.sound, hsi, hss, hr⟩
      (save_saved hs.sound hsi hss hr) hst) ih
  | beginTask h hi he ih => exact hsteps (beginTask_steps _ _ h.sound.regular hi he) ih
  | finishTask h ih => exact hsteps (finishTask_steps _ h.sound.regular) ih
  | elsewhere _ outside told ih => exact ih

end

end VirtualComputer
