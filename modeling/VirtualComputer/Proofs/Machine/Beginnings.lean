import VirtualComputer.Proofs.Machine.Delivery
import VirtualComputer.Proofs.Machine.Operations

/-!
# What runs begin with

A teardown clears the queue, and a machine without a run takes signals only while it is about to start again.  These
wait for the run that begins then, or for a later one if that fails, and are delivered to it before it hears of its
neighbors (`runs_begin_with`); nothing else is left of earlier runs.
-/

namespace VirtualComputer

open Machine

/-- Without a guest, the queue holds all that has entered it since it was last cleared. -/
structure Situation.Vacant {ν : Type} (site : Site ν) (c : Situation) (log : List Occurrence) : Prop where
  state : c.guest = none → c.state = .stopped ∨ c.state = .rebooting
  signals : c.guest = none → c.queue.signals = entered log
  capacity : c.queue.capacity = site.settings.queueCapacity
  bound : c.queue.signals.length ≤ c.queue.capacity

/-! ## Steps -/

section

variable {ν : Type} {site : Site ν} {R : MachineRecord → Prop} {a b : Situation} {log l : List Occurrence}

namespace Situation.Vacant

/-- A situation with a guest, whose queue may be shorter. -/
theorem occupied (h : a.Vacant site log) (hg : b.guest ≠ none) (hc : b.queue.capacity = a.queue.capacity)
    (hb : b.queue.signals.length ≤ b.queue.capacity) : b.Vacant site l :=
  ⟨fun h => absurd h hg, fun h => absurd h hg, hc.trans h.capacity, hb⟩

/-- A run that ends leaves nothing in the queue. -/
theorem closed (h : a.Vacant site log) (l : List Occurrence) : a.closed.Vacant site (log ++ (l ++ [.closed])) := by
  rw [← List.append_assoc]
  refine ⟨fun _ => .inl rfl, fun _ => ?_, h.capacity, Nat.zero_le _⟩
  rw [entered_concat]
  rfl

end Situation.Vacant

/-- Every step keeps account of what is in the queue of a machine without a guest. -/
theorem Step.vacant (h : Step site R a l b) (ha : a.Vacant site log) : b.Vacant site (log ++ l) := by
  -- The states of a run are those of a machine with a guest.
  have hguest (hs : a.state ≠ .stopped) (hr : a.state ≠ .rebooting) : a.guest ≠ none :=
    fun h => (ha.state h).elim hs hr
  have hrun {s : State} (hs : a.state = s) (hne : s ≠ .stopped ∧ s ≠ .rebooting) : a.guest ≠ none :=
    hguest (hs ▸ hne.1) (hs ▸ hne.2)
  have hquiet {o : Occurrence} (ho : ∀ signals, o.enters signals = signals) : a.Vacant site (log ++ [o]) := by
    refine ⟨ha.state, fun hg => ?_, ha.capacity, ha.bound⟩
    rw [entered_concat, ho]
    exact ha.signals hg
  cases h with
  | accepted hs hr =>
    refine ⟨ha.state, fun hg => ?_, ha.capacity, ?_⟩
    · rw [entered_concat, Occurrence.enters, ← ha.signals hg]
    · rw [List.length_append]
      exact hr
  | refused => exact hquiet fun _ => rfl
  | updated _ _ => exact hquiet fun _ => rfl
  | passed hs =>
    refine ha.occupied ?_ rfl ha.bound
    cases hs with
    | resume hs => rcases hs with hs | hs | hs <;> exact hrun hs (by decide)
    | «return» hs => exact hrun hs (by decide)
    | stop hs => rcases hs with ⟨hs, -⟩ | hs | hs <;> exact hrun hs (by decide)
  | idle hg _ hn _ =>
    rw [List.append_nil]
    exact ⟨fun _ => hn, fun _ => ha.signals hg, ha.capacity, ha.bound⟩
  | started _ _ _ _ _ => exact ha.occupied (Option.some_ne_none _) rfl ha.bound
  | parked _ hs =>
    refine ha.occupied ?_ rfl ha.bound
    cases hs with
    | yielded hs | «return» hs => exact hrun hs (by decide)
  | beganSignal hs _ =>
    have hbound := ha.bound
    refine ha.occupied (hrun hs (by decide)) ?_ ?_
    · rcases a.queue with ⟨capacity, _ | ⟨s, rest⟩⟩ <;> rfl
    · rcases hq : a.queue with ⟨capacity, _ | ⟨s, rest⟩⟩ <;> rw [hq] at hbound
      · exact hbound
      · exact Nat.le_of_succ_le hbound
  | beganResult hs _ => exact ha.occupied (hrun hs (by decide)) rfl ha.bound
  | yielded _ _ _ _ _ => exact ha.occupied (Option.some_ne_none _) rfl ha.bound
  | ended _ _ => exact ha.closed _
  | calling hs _ => exact ha.occupied (hrun hs (by decide)) rfl ha.bound
  | returned _ _ _ _ => exact ha.occupied (Option.some_ne_none _) rfl ha.bound
  | failed _ _ _ => exact ha.closed _
  | closed _ _ => exact ha.closed []
  | loaded _ _ _ _ _ _ _ _ _ _ _ => exact ha.occupied (Option.some_ne_none _) rfl (List.length_take_le ..)

theorem Steps.vacant (h : Steps site R a l b) (ha : a.Vacant site log) : b.Vacant site (log ++ l) :=
  h.invariant (fun ha hs => hs.vacant ha) ha

end

/-! ## Courses -/

namespace Machine

variable {ν : Type} {site : Site ν} {m : Machine ν} {log : List Occurrence} {g : Guest}

/-- A load that is refused, or that finds no run in the record, leaves the queue as the teardown has. -/
theorem load_vacant (r : MachineRecord) (h : m.Regular) (hi : m.inside = none) (hm : m.situation.Vacant site log) :
    (load site r m).situation.Vacant site (log ++ m.loadLog site r) := by
  have hrunning : m.state ≠ .running := by
    intro hs
    have hinside := h.inside_states.2 hs
    rw [hi] at hinside
    cases hinside
  have hclose : m.close.situation.Vacant site (log ++ m.closeLog) :=
    (close_steps site (fun _ => True) hrunning hi).vacant hm
  obtain ⟨hl, -⟩ := (h.close hi).stopped (close_state m)
  have hguest : m.close.guest = none := congrArg Lifecycle.guest hl
  have hkept {m' : Machine ν} (hg : m'.guest = none) (hs : m'.state = .stopped ∨ m'.state = .rebooting)
      (hq : m'.queue = m.close.queue) : m'.situation.Vacant site (log ++ m.closeLog) := by
    refine ⟨fun _ => hs, fun _ => ?_, ?_, ?_⟩
    · exact (congrArg SignalQueue.signals hq).trans (hclose.signals hguest)
    · exact (congrArg SignalQueue.capacity hq).trans hclose.capacity
    · show m'.queue.signals.length ≤ m'.queue.capacity
      rw [hq]
      exact hclose.bound
  have hrestored := tryLoad_restored site r m.close
  unfold load loadLog
  obtain ⟨t, ht⟩ : ∃ t, tryLoad site r m.close = t := ⟨_, rfl⟩
  rw [ht] at hrestored ⊢
  cases hrestored with
  | @refused m' f hm' =>
    obtain ⟨told, outside, -, rfl⟩ := hm'
    dsimp only
    rw [List.append_nil]
    refine hkept (close_guest _) (.inl (close_state _)) ?_
    exact congrArg Situation.queue
      (close_stopped (m := tell _ { m.close.readdressed r with told, outside }) (close_state m) hguest)
  | stopped =>
    show Situation.Vacant site _ (log ++ (m.closeLog ++ m.close.guest.elim [] _))
    rw [hguest, Option.elim_none, List.append_nil]
    exact hkept hguest (.inl (close_state m)) rfl
  | rebooting =>
    show Situation.Vacant site _ (log ++ (m.closeLog ++ m.close.guest.elim [] _))
    rw [hguest, Option.elim_none, List.append_nil]
    exact hkept hguest (.inr rfl) rfl
  | resting g hs hm' =>
    obtain ⟨told, outside, -, rfl⟩ := hm'
    exact hclose.occupied nofun rfl (List.length_take_le ..)

end Machine

/-- Every operation keeps account of what is in the queue of a machine without a guest. -/
theorem Operation.vacant {ν : Type} {site : Site ν} {m : Machine ν} {log : List Occurrence} (op : Operation ν)
    (h : m.Regular) (ha : op.Allowed m) (hm : m.situation.Vacant site log) :
    (op.perform site m).situation.Vacant site (log ++ op.log site m) := by
  -- No records are loaded in the steps of the other operations.
  have hsteps {b : Situation} {l : List Occurrence} (hs : Steps site (fun _ => True) m.situation l b) :
      b.Vacant site (log ++ l) := hs.vacant hm
  cases op with
  | start => exact hsteps (start_steps _ _ h)
  | stop => exact hsteps (stop_steps _ _ h)
  | signal s => exact hsteps (signal_steps _ _ s m)
  | update => exact hsteps (update_steps _ h)
  | deferred =>
    obtain ⟨g, hfree⟩ := h.free_call ha
    exact hsteps (deferred_steps _ _ hfree.inside ha)
  | receive msg => exact hsteps (receive_steps _ _ h msg)
  | save =>
    rw [perform, (save_told m).situation, Operation.log, List.append_nil]
    exact hm
  | load r => exact load_vacant r h ha hm
  | beginTask epoch => exact hsteps (beginTask_steps _ _ h ha.1 ha.2)
  | finishTask => exact hsteps (finishTask_steps _ h)
  | elsewhere outside =>
    rw [Operation.log, List.append_nil]
    exact hm

namespace SignalQueue

/-- Of the signals that arrive one after the other at a queue, those wait for which there is room. -/
theorem foldl_push (ss : List Signal) (q : SignalQueue) (h : q.signals.length ≤ q.capacity) :
    (ss.foldl (fun q s => (q.push s).2) q).signals = (q.signals ++ ss).take q.capacity := by
  induction ss generalizing q with
  | nil => rw [List.foldl_nil, List.append_nil, List.take_of_length_le h]
  | cons s ss ih =>
    rw [List.foldl_cons]
    by_cases hr : q.signals.length < q.capacity
    · rw [push_room hr, ih]
      · rw [List.append_assoc]
        rfl
      · rw [List.length_append]
        exact hr
    · rw [push_full hr, ih q h, List.take_append_of_le_length (Nat.not_lt.1 hr),
        List.take_append_of_le_length (Nat.not_lt.1 hr)]

end SignalQueue

namespace Machine

variable {ν : Type} {site : Site ν} {m : Machine ν} {log : List Occurrence} {g : Guest}

/-- A run begins with what is in the queue, and is then told of the neighbors; a start that fails brings no guest. -/
theorem start_cases (site : Site ν) (m : Machine ν) :
    (m.start site).1 ∧ (m.start site).2.guest.isSome ∧
        (m.inside = none → (m.start site).2.queue = (neighbors site m).foldl (fun q s => (q.push s).2) m.queue) ∨
      ¬(m.start site).1 ∧ (m.start site).2.guest = m.guest := by
  rcases start_leaves site m with h | ⟨-, texts, ledger, outside, helapses, ⟨g, h⟩ | ⟨f, h⟩⟩ <;> rw [h]
  · exact .inr ⟨Bool.false_ne_true, rfl⟩
  · refine .inl ⟨rfl, rfl, fun hi => ?_⟩
    rw [helapses hi]
    exact congrArg Situation.queue (beginRun_situation site g _)
  · exact .inr ⟨Bool.false_ne_true, rfl⟩

/-- An update of a machine that is about to start again starts it, with the queue that it has. -/
theorem update_rebooting (site : Site ν) (hs : m.state = .rebooting) (hg : m.guest = none) : ∃ m' : Machine ν,
    update site m = (m'.start site).2 ∧ m'.state = .stopped ∧ m'.guest = none ∧ m'.queue = m.queue ∧
      m'.inside = m.inside ∧ m'.outside = m.outside := by
  have hnoted : (noted site m).state = .rebooting := hs
  have hadvance : advance (noted site m) = (.reboot, { noted site m with state := .stopped }) := by
    rw [advance, hnoted]
  obtain ⟨message, told, hshown⟩ := shown_told site m.ended { noted site m with state := .stopped }
  obtain ⟨t, ht⟩ : ∃ t : Machine ν, t = { noted site m with state := .stopped, message, told } := ⟨_, rfl⟩
  have hstopped : t.state = .stopped := by rw [ht]
  have hguest : t.guest = none := by
    rw [ht]
    exact hg
  have hclose : t.close = { t with epoch := t.epoch + 1 } := by
    rw [close, hstopped, hguest]
    rfl
  refine ⟨t.close, ?_, close_state t, close_guest t, ?_⟩
  · rw [update_noted, hadvance, hshown, ht]
    rfl
  · rw [hclose, ht]
    exact ⟨rfl, rfl, rfl⟩

/-! ## Ends of runs -/

/-- If the guest has been released, nothing is left in the queue. -/
def Empties (m m' : Machine ν) : Prop :=
  m.guest.isSome → m'.guest = none → m'.queue.signals = []

theorem Empties.of_guest {m' : Machine ν} (h : m'.guest = m.guest) : m.Empties m' := by
  intro hg hnone
  rw [← h, hnone] at hg
  cases hg

theorem Empties.of_some {m' : Machine ν} (h : m'.guest.isSome) : m.Empties m' := by
  intro _ hnone
  rw [hnone] at h
  cases h

theorem close_queue (hg : m.guest.isSome) : m.close.queue.signals = [] := by
  obtain ⟨g, hg⟩ := Option.isSome_iff_exists.1 hg
  rw [close, hg, Option.isNone_some, Bool.and_false]
  rfl

theorem close_empties (m : Machine ν) : m.Empties m.close :=
  fun hg _ => close_queue hg

theorem TornDown.queue {m' : Machine ν} (h : m.TornDown m') : m'.queue.signals = [] := by
  obtain ⟨-, next, -, hc⟩ := h
  exact congrArg SignalQueue.signals (congrArg Situation.queue hc)

theorem Rested.guest {w : Wish} {m' : Machine ν} (h : Rested w m m') : m'.guest = m.guest := by
  obtain ⟨-, next, -, hc⟩ := h
  exact congrArg Situation.guest hc

theorem start_empties (site : Site ν) (m : Machine ν) : m.Empties (m.start site).2 := by
  rcases start_cases site m with ⟨-, hsome, -⟩ | ⟨-, hkept⟩
  · exact .of_some hsome
  · exact .of_guest hkept

theorem stop_empties (m : Machine ν) : m.Empties m.stop.2 := by
  rcases m.stop_leaves with h | h | h <;> rw [h]
  · exact .of_guest rfl
  · exact .of_guest rfl
  · exact close_empties m

theorem synchronize_empties (h : m.Regular) (hs : m.state = .synchronizedCall) : m.Empties (synchronize site m) := by
  obtain ⟨m', g, hfree, -, hsync⟩ := h.synchronize_cases site hs
  have hsome : m'.guest.isSome := by
    rw [hfree.guest]
    rfl
  rcases hsync with hsync | hsync | ⟨f, hsync⟩ <;> rw [hsync]
  · exact fun _ _ => close_queue hsome
  · refine .of_some ?_
    have hkept : (m'.schedule .synchronizedReturn).guest = m'.guest :=
      congrArg Lifecycle.guest (schedule_lifecycle _ hfree.task)
    rw [hkept]
    exact hsome
  · exact fun _ _ => (failCall_torn hfree f).queue

theorem update_empties (h : m.Regular) : m.Empties (update site m) := by
  obtain ⟨hregular, hreboot, hcall⟩ := (advance_advanced (noted site m)).regular h
  have hshown := @shown_lifecycle ν site m.ended (advance (noted site m)).2
  have hguest : (shown site m.ended (advance (noted site m)).2).guest = m.guest :=
    (congrArg Lifecycle.guest hshown).trans (advance_advanced (noted site m)).same.2
  rw [update_noted]
  cases ha : (advance (noted site m)).1 with
  | nothing => exact .of_guest hguest
  | reboot =>
    intro hg
    have hnone := hregular.guest_none (.inl (hreboot ha))
    rw [(advance_advanced (noted site m)).same.2] at hnone
    rw [show m.guest = none from hnone] at hg
    cases hg
  | call =>
    intro hg
    rw [← hguest] at hg
    exact synchronize_empties (hregular.of_eq hshown) ((congrArg Lifecycle.state hshown).trans (hcall ha)) hg

theorem Taken.empties {m' : Machine ν} (h : m.Taken m') : m.Empties m' := by
  cases h with
  | void | parked | entered => exact .of_guest rfl
  | closed => exact close_empties m
  | refused n queue => exact close_empties (tell (.noticed n) { m with queue })

theorem finishTask_empties (site : Site ν) (h : m.Regular) : m.Empties (finishTask site m) := by
  cases hi : m.inside with
  | none => exact .of_guest (congrArg Machine.guest (finishTask_idle site hi))
  | some d =>
    obtain ⟨-, hw, g, hg⟩ := h.resuming hi
    obtain ⟨m', hf, hfree, -, -⟩ := finishTask_busy site hi hg hw
    rw [hf]
    rcases (react_reacted site _ m').rested_or_torn hfree with ⟨w, -, -, hrested⟩ | htorn
    · refine .of_some ?_
      rw [hrested.guest, hfree.guest]
      rfl
    · exact fun _ _ => htorn.queue

theorem load_empties (site : Site ν) (r : MachineRecord) (m : Machine ν) : m.Empties (load site r m) := by
  intro hg
  have hclose : m.close.queue.signals = [] := close_queue hg
  refine load_of (P := fun m' => m'.guest = none → m'.queue.signals = []) site r m
    (fun f told outside _ => ?_) (fun _ => hclose) (fun _ => hclose) fun s g told outside _ => nofun
  have hqueue := congrArg Situation.queue (close_stopped (m := tell (.noticed (.discarded f))
    { m.close.readdressed r with told, outside }) (close_state m) (close_guest m))
  exact (congrArg SignalQueue.signals hqueue).trans hclose

end Machine

/-- An operation that ends a run leaves nothing in the queue. -/
theorem Operation.empties {ν : Type} {site : Site ν} {m : Machine ν} (op : Operation ν) (h : m.Regular)
    (ha : op.Allowed m) : m.Empties (op.perform site m) := by
  have hsignal (s : Signal) : m.Empties (m.signal s).2 :=
    .of_guest (congrArg Lifecycle.guest (signal_lifecycle s m))
  cases op with
  | start => exact start_empties site m
  | stop => exact stop_empties m
  | signal s => exact hsignal s
  | update => exact update_empties h
  | deferred =>
    obtain ⟨g, hfree⟩ := h.free_call ha
    exact .of_guest (congrArg Lifecycle.guest (deferred_lifecycle hfree.inside ha))
  | receive msg =>
    exact handle_of (P := m.Empties) msg (.of_guest rfl) hsignal (start_empties site m) (stop_empties m)
  | save => exact .of_guest (congrArg Lifecycle.guest (save_told m).lifecycle)
  | load r => exact load_empties site r m
  | beginTask epoch => exact (beginTask_taken site epoch { m with waiting := m.waiting.erase epoch }).empties
  | finishTask => exact finishTask_empties site h
  | elsewhere outside => exact .of_guest rfl

/-! ## Beginnings of runs -/

namespace Machine

variable {ν : Type} {site : Site ν} {m : Machine ν} {log : List Occurrence}

/-- What runs of a machine begin with, after whatever has happened. -/
structure BeginsWith (site : Site ν) (m : Machine ν) (log : List Occurrence) : Prop where
  /-- A run that ends leaves nothing in the queue. -/
  ended : ∀ op : Operation ν, op.Allowed m → m.guest.isSome → (op.perform site m).guest = none →
    (op.perform site m).queue.signals = []
  /-- Without a run the queue holds what has entered it since the last run ended. -/
  vacant : m.guest = none → m.queue.signals = entered log
  /-- Signals enter the queue of a machine without a run only while it is about to start again. -/
  accepts : m.guest = none → ∀ s, (m.signal s).1 → m.state = .rebooting
  /-- A run begins with these, then with the neighbors, as far as there is room. -/
  start : (m.start site).1 →
    (m.start site).2.queue.signals = (entered log ++ neighbors site m).take site.settings.queueCapacity
  reboot : m.state = .rebooting → (m.update site).guest.isSome →
    (m.update site).queue.signals = (entered log ++ neighbors site m).take site.settings.queueCapacity

end Machine

/-- A run begins with the signals that have been accepted since the last one ended, while the machine was about to start
again, and then it is told of the neighbors. -/
theorem runs_begin_with {ν : Type} {site : Site ν} {catalog : Catalog} {outside : ν} {ops : List (Operation ν)}
    (ha : Admits site ops (fresh site catalog outside)) :
    BeginsWith site (after site ops (fresh site catalog outside))
      (courseLog site ops (fresh site catalog outside)) := by
  obtain ⟨m, hm⟩ : ∃ m, after site ops (fresh site catalog outside) = m := ⟨_, rfl⟩
  have hregular := ha.regular (fresh_regular site catalog outside)
  have hvacant := ha.invariant [] (P := fun m log => m.situation.Vacant site log)
    (fresh_regular site catalog outside) (fun op _ _ _ h hop hm => op.vacant h hop hm)
    ⟨fun _ => .inl rfl, fun _ => rfl, rfl, Nat.zero_le _⟩
  rw [hm] at hregular hvacant ⊢
  obtain ⟨log, hlog⟩ : ∃ log, courseLog site ops (fresh site catalog outside) = log := ⟨_, rfl⟩
  rw [List.nil_append, hlog] at hvacant
  rw [hlog]
  have hbound : m.queue.signals.length ≤ m.queue.capacity := hvacant.bound
  have hcapacity : m.queue.capacity = site.settings.queueCapacity := hvacant.capacity
  have hbegins {m' : Machine ν} (hs : (m'.start site).1) (hg : m.guest = none) (hq : m'.queue = m.queue)
      (hi : m'.inside = m.inside) (ho : m'.outside = m.outside) : (m'.start site).2.queue.signals =
        (entered log ++ neighbors site m).take site.settings.queueCapacity := by
    obtain ⟨-, hinside, -⟩ := hregular.idle hg
    have hsignals : m.queue.signals = entered log := hvacant.signals hg
    have hneighbors : neighbors site m' = neighbors site m := by rw [neighbors, neighbors, ho]
    rcases start_cases site m' with ⟨-, -, hqueue⟩ | ⟨hfailed, -⟩
    · rw [hqueue (hi.trans hinside), hneighbors, hq, SignalQueue.foldl_push _ _ hbound, hsignals, hcapacity]
    · exact absurd hs hfailed
  refine ⟨fun op hop => op.empties hregular hop, hvacant.signals, fun hg s hs => ?_, fun hs => ?_, fun hs hg => ?_⟩
  · rcases hvacant.state hg with hstopped | hrebooting
    · rw [signal, show m.state = .stopped from hstopped] at hs
      cases hs
    · exact hrebooting
  · have hstopped : m.state = .stopped := by
      by_contra hne
      rw [start_refused site hne] at hs
      cases hs
    exact hbegins hs (hregular.guest_none (.inl hstopped)) rfl rfl rfl
  · have hnone := hregular.guest_none (.inr hs)
    obtain ⟨m', hupdate, -, hguest, hqueue, hinside, houtside⟩ := update_rebooting site hs hnone
    rw [hupdate] at hg ⊢
    rcases start_cases site m' with ⟨hstarted, -, -⟩ | ⟨-, hkept⟩
    · exact hbegins hstarted hnone hqueue hinside houtside
    · rw [hkept, hguest] at hg
      cases hg

/-- A machine whose kernel asks for a reboot when it is told of its neighbor. -/
def rebooter : Machine Console :=
  Machine.fresh consoleSite ⟨none, Catalog.defaultBoot, "yield;\nyield true\nyield;", []⟩ ⟨0, 0⟩

/-- It takes a signal while it is about to start again. -/
def rebooted : List (Operation Console) :=
  [.start, .update, .beginTask 0, .finishTask, .signal ⟨"late", []⟩]

/-- The signal is still there when the next run begins. -/
theorem late_signal_first : ∃ (m : Machine Console) (log : List Occurrence),
    (m.state = .rebooting ∧ (entered log).map Signal.name = ["late"] ∧
      (m.update consoleSite).queue.signals.map Signal.name = ["late", "component_added"]) ∧
    m.BeginsWith consoleSite log := by
  obtain ⟨hadmits, hlate⟩ : Admits consoleSite rebooted rebooter ∧
      (after consoleSite rebooted rebooter).state = .rebooting ∧
      (entered (courseLog consoleSite rebooted rebooter)).map Signal.name = ["late"] ∧
      ((after consoleSite rebooted rebooter).update consoleSite).queue.signals.map Signal.name =
        ["late", "component_added"] := by decide +kernel
  exact ⟨_, _, hlate, runs_begin_with hadmits⟩

end VirtualComputer
