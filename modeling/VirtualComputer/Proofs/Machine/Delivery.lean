import VirtualComputer.Proofs.Machine.Kernels

/-!
# Signals are delivered in order, exactly once

Whatever has happened, the signals that the kernel has been resumed with, then the one that a worker is about to
deliver, then those that wait are all that have entered the queue since it was last cleared
(`signals_in_order`).  Of the steps of a machine only a resume takes a signal from the queue; one that is put off leaves
it there.
-/

namespace VirtualComputer

open Machine

/-! ## What enters, and what is delivered -/

/-- The signals that have entered the queue since it was last cleared, after one more occurrence. -/
def Occurrence.enters (signals : List Signal) : Occurrence → List Signal
  | .accepted s => signals ++ [s]
  | .loaded _ _ restored => restored
  | .closed => []
  | _ => signals

/-- The signals that the kernel has been resumed with since then. -/
def Occurrence.delivers (signals : List Signal) : Occurrence → List Signal
  | .resumed (.signal s) .. => signals ++ [s]
  | .loaded .. | .closed => []
  | _ => signals

/-- All signals that have entered the queue since it was last cleared, in order of arrival. -/
def entered (log : List Occurrence) : List Signal :=
  log.foldl Occurrence.enters []

/-- All signals that have been delivered since the queue was last cleared, in order of delivery. -/
def delivered (log : List Occurrence) : List Signal :=
  log.foldl Occurrence.delivers []

def Delivery.signal? : Delivery → Option Signal
  | .signal s => some s
  | _ => none

/-- The signal that a worker has taken from the queue and is about to deliver. -/
def Machine.underway {ν : Type} (m : Machine ν) : List Signal :=
  (m.inside.bind Delivery.signal?).toList

/-- The value that a signal is delivered as: its name, then its arguments. -/
def Signal.value (s : Signal) : Val :=
  .list (.str s.name :: s.args.map Val.ofScalar)

theorem entered_concat (log : List Occurrence) (o : Occurrence) : entered (log ++ [o]) = o.enters (entered log) :=
  List.foldl_concat ..

theorem delivered_concat (log : List Occurrence) (o : Occurrence) :
    delivered (log ++ [o]) = o.delivers (delivered log) :=
  List.foldl_concat ..

/-- A signal with which the kernel is resumed becomes the value of its `yield`. -/
def Occurrence.Faithful : Occurrence → Prop
  | .resumed (.signal s) v co _ _ => v = s.value ∧ co.Takes v
  | _ => True

/-- No signal has been lost, repeated or moved, and there are not too many. -/
structure Situation.InOrder {ν : Type} (site : Site ν) (c : Situation) (log : List Occurrence) : Prop where
  order : delivered log ++ (c.inside.bind Delivery.signal?).toList ++ c.queue.signals = entered log
  capacity : c.queue.capacity = site.settings.queueCapacity
  bound : c.queue.signals.length ≤ c.queue.capacity
  faithful : ∀ o ∈ log, o.Faithful

/-! ## Steps -/

section

variable {ν : Type} {site : Site ν} {R : MachineRecord → Prop} {a b : Situation} {log l : List Occurrence}
  {o : Occurrence}

/-- Nothing enters the queue, and nothing is delivered. -/
structure Occurrence.Idle (o : Occurrence) : Prop where
  enters : ∀ signals, o.enters signals = signals
  delivers : ∀ signals, o.delivers signals = signals
  faithful : o.Faithful

theorem idle_kept (log : List Occurrence) (hl : ∀ o ∈ l, o.Idle) :
    entered (log ++ l) = entered log ∧ delivered (log ++ l) = delivered log := by
  induction l generalizing log with
  | nil => rw [List.append_nil]; exact ⟨rfl, rfl⟩
  | cons o l ih =>
    obtain ⟨ho, hl⟩ := List.forall_mem_cons.1 hl
    rw [List.append_cons, (ih _ hl).1, (ih _ hl).2, entered_concat, delivered_concat, ho.enters, ho.delivers]
    exact ⟨rfl, rfl⟩

namespace Situation.InOrder

/-- Steps that leave the queue alone. -/
theorem idle (h : a.InOrder site log) (hl : ∀ o ∈ l, o.Idle) (hq : b.queue = a.queue)
    (hi : b.inside.bind Delivery.signal? = a.inside.bind Delivery.signal?) : b.InOrder site (log ++ l) := by
  obtain ⟨hentered, hdelivered⟩ := idle_kept log hl
  refine ⟨?_, ?_, ?_, List.forall_mem_append.2 ⟨h.faithful, fun o ho => (hl o ho).faithful⟩⟩ <;> rw [hq]
  · rw [hentered, hdelivered, hi]
    exact h.order
  · exact h.capacity
  · exact h.bound

/-- A teardown clears the queue. -/
theorem closed (h : a.InOrder site log) (hl : ∀ o ∈ l, o.Faithful) :
    a.closed.InOrder site (log ++ (l ++ [.closed])) := by
  rw [← List.append_assoc]
  refine ⟨?_, h.capacity, Nat.zero_le _, List.forall_mem_append.2
    ⟨List.forall_mem_append.2 ⟨h.faithful, hl⟩, List.forall_mem_singleton.2 trivial⟩⟩
  rw [entered_concat, delivered_concat]
  rfl

end Situation.InOrder

/-- What a guest is resumed with is what its kernel takes. -/
theorem Guest.AtYield.faithful {σ : Type} {host : Host σ} {steps : Nat} {d : Delivery} {g : Guest} {world : σ}
    (h : g.AtYield) : ∀ o ∈ g.resumption host steps d world, o.Faithful := by
  obtain ⟨co, hk, hco⟩ := h
  rcases hd : (g.delivery d).1 with f | v
  · rw [(resume_undelivered hd).1]
    exact List.forall_mem_nil _
  · obtain ⟨r, left, hran⟩ := resume_ran host steps world hk hd
    rw [hran.log]
    refine List.forall_mem_singleton.2 ?_
    cases d with
    | nothing | result => trivial
    | signal s => exact ⟨(Except.ok.inj hd).symm, hco.takes v⟩

/-- A resume delivers what it has been begun with. -/
theorem Guest.AtYield.delivers {σ : Type} {host : Host σ} {steps : Nat} {d : Delivery} {g : Guest} {world : σ}
    (h : g.AtYield) (log : List Occurrence) :
    delivered (log ++ g.resumption host steps d world) = delivered log ++ d.signal?.toList ∧
      entered (log ++ g.resumption host steps d world) = entered log := by
  obtain ⟨co, hk, -⟩ := h
  have hran {v : Val} (hd : (g.delivery d).1 = .ok v) : ∃ r left, Ran host steps d g world v co r left :=
    resume_ran host steps world hk hd
  cases d with
  | nothing | signal s =>
    obtain ⟨r, left, hran⟩ := hran rfl
    rw [hran.log, delivered_concat, entered_concat]
    simp [Occurrence.delivers, Occurrence.enters, Delivery.signal?]
  | result =>
    rw [show (Delivery.signal? .result).toList = [] from rfl, List.append_nil]
    rcases hd : (g.delivery .result).1 with f | v
    · rw [(resume_undelivered hd).1, List.append_nil]
      exact ⟨rfl, rfl⟩
    · obtain ⟨r, left, hran⟩ := hran hd
      rw [hran.log, delivered_concat, entered_concat]
      exact ⟨rfl, rfl⟩

/-- What a call comes to has nothing to do with the queue. -/
theorem invocation_idle {σ : Type} (host : Host σ) (g : Guest) (world : σ) :
    ∀ o ∈ g.invocation host world, o.Idle := by
  unfold Guest.invocation
  split
  · exact List.forall_mem_nil _
  · split
    · exact List.forall_mem_nil _
    · exact List.forall_mem_singleton.2 ⟨fun _ => rfl, fun _ => rfl, trivial⟩

/-- Of the steps only a resume delivers a signal. -/
theorem Step.inOrder (h : Step site R a l b) (ha : a.AtYield) (hi : a.InOrder site log) :
    b.InOrder site (log ++ l) := by
  have hquiet : ∀ o ∈ ([] : List Occurrence), o.Idle := List.forall_mem_nil _
  have hone {o : Occurrence} (ho : o.Idle) : ∀ x ∈ [o], x.Idle := List.forall_mem_singleton.2 ho
  cases h with
  | accepted hs hr =>
    refine ⟨?_, hi.capacity, ?_, List.forall_mem_append.2 ⟨hi.faithful, List.forall_mem_singleton.2 trivial⟩⟩
    · rw [entered_concat, delivered_concat, Occurrence.enters, ← hi.order, List.append_assoc (delivered log ++ _)]
      rfl
    · rw [List.length_append]
      exact hr
  | refused => exact hi.idle (hone ⟨fun _ => rfl, fun _ => rfl, trivial⟩) rfl rfl
  | updated _ _ => exact hi.idle (hone ⟨fun _ => rfl, fun _ => rfl, trivial⟩) rfl rfl
  | passed _ => exact hi.idle hquiet rfl rfl
  | idle _ _ _ _ => exact hi.idle hquiet rfl rfl
  | started _ _ _ _ _ => exact hi.idle hquiet rfl rfl
  | parked _ _ => exact hi.idle (hone ⟨fun _ => rfl, fun _ => rfl, trivial⟩) rfl rfl
  | beganSignal hs hinside =>
    obtain ⟨hentered, hdelivered⟩ := idle_kept log
      (hone (o := .began (a.queue.pop.1.elim .nothing .signal)) ⟨fun _ => rfl, fun _ => rfl, trivial⟩)
    have horder := hi.order
    have hbound := hi.bound
    rw [hinside] at horder
    refine ⟨?_, ?_, ?_, List.forall_mem_append.2 ⟨hi.faithful, List.forall_mem_singleton.2 trivial⟩⟩
    · rw [hentered, hdelivered, ← horder]
      rcases a.queue with ⟨capacity, _ | ⟨s, rest⟩⟩ <;> simp [SignalQueue.pop, Delivery.signal?]
    · rw [← hi.capacity]
      rcases a.queue with ⟨capacity, _ | ⟨s, rest⟩⟩ <;> rfl
    · rcases hq : a.queue with ⟨capacity, _ | ⟨s, rest⟩⟩ <;> rw [hq] at hbound
      · exact hbound
      · exact Nat.le_of_succ_le hbound
  | beganResult hs hinside =>
    exact hi.idle (hone ⟨fun _ => rfl, fun _ => rfl, trivial⟩) rfl (congrArg (Option.bind · _) hinside).symm
  | yielded hs hinside hg hr hn =>
    obtain ⟨hdelivered, hentered⟩ := (ha _ hg).delivers log
    have horder := hi.order
    rw [hinside] at horder
    refine ⟨?_, hi.capacity, hi.bound, List.forall_mem_append.2 ⟨hi.faithful, (ha _ hg).faithful⟩⟩
    rw [hdelivered, hentered, ← horder]
    exact congrArg (· ++ _) (List.append_nil _)
  | ended _ hg => exact hi.closed (ha _ hg).faithful
  | calling _ _ => exact hi.idle (hone ⟨fun _ => rfl, fun _ => rfl, trivial⟩) rfl rfl
  | returned _ _ _ _ => exact hi.idle (invocation_idle _ _ _) rfl rfl
  | failed _ _ _ => exact hi.closed fun o ho => (invocation_idle _ _ _ o ho).faithful
  | closed _ _ => exact hi.closed (l := []) (List.forall_mem_nil _)
  | loaded _ _ _ hinside _ _ _ _ _ _ _ =>
    refine ⟨?_, hi.capacity, List.length_take_le .., List.forall_mem_append.2
      ⟨hi.faithful, List.forall_mem_singleton.2 trivial⟩⟩
    rw [entered_concat, delivered_concat, hinside]
    rfl

/-! ## All histories -/

variable {m : Machine ν}

theorem History.inOrder (h : History site m log) : m.situation.InOrder site log :=
  (h.invariant_atYield (fun site c log => c.InOrder site log)
    (fun _ _ _ => ⟨rfl, rfl, Nat.zero_le _, List.forall_mem_nil _⟩) fun hi ha _ hs => hs.inOrder ha hi).1

/-- Of the signals that arrive one after the other, the first ones for which there is room enter the queue. -/
theorem entered_pushLog (log : List Occurrence) : ∀ (ss : List Signal) (q : SignalQueue),
    entered (log ++ pushLog ss q) = entered log ++ ss.take (q.capacity - q.signals.length)
  | [], q => by rw [pushLog, List.take_nil, List.append_nil, List.append_nil]
  | s :: ss, q => by
    rw [pushLog, List.append_cons, entered_pushLog _ ss]
    by_cases hr : q.signals.length < q.capacity
    · obtain ⟨n, hn⟩ : ∃ n, q.capacity - q.signals.length = n + 1 := ⟨_, (Nat.succ_pred (by omega)).symm⟩
      rw [SignalQueue.push_room hr, if_pos rfl, entered_concat, hn, List.take_succ_cons]
      simp only [Occurrence.enters, List.length_append, List.length_singleton, List.append_assoc,
        List.singleton_append]
      rw [Nat.sub_add_eq, hn, Nat.add_sub_cancel]
    · rw [SignalQueue.push_full hr, if_neg Bool.false_ne_true, entered_concat, Nat.sub_eq_zero_of_le (Nat.not_lt.1 hr),
        List.take_zero, List.take_zero]
      rfl

/-- What holds of the signals of a machine, after whatever has happened. -/
structure Machine.SignalsInOrder (site : Site ν) (m : Machine ν) (log : List Occurrence) : Prop where
  /-- What has been delivered, then what is being delivered, then what waits is what has entered the queue. -/
  order : delivered log ++ m.underway ++ m.queue.signals = entered log
  bound : m.queue.signals.length ≤ site.settings.queueCapacity
  /-- A signal that is delivered is the value of the `yield` at which the kernel waits. -/
  values : ∀ s v co r left, .resumed (.signal s) v co r left ∈ log → v = s.value ∧ co.Takes v
  /-- A signal enters the queue exactly if it is accepted. -/
  signal : ∀ s, entered (log ++ m.signalLog s) = entered log ++ if (m.signal s).1 then [s] else []
  /-- The neighbors that a start tells of enter the queue as far as there is room. -/
  start : (m.start site).1 → entered (log ++ m.startLog site) =
    entered log ++ (neighbors site m).take (site.settings.queueCapacity - m.queue.signals.length)
  /-- A load replaces the queue by the signals of the record. -/
  load : ∀ r, (m.load site r).guest.isSome → entered (log ++ m.loadLog site r) =
    ((r.signals.getD []).map SignalRecord.toSignal).take site.settings.queueCapacity
  /-- A task that is put off because the world is stalled takes no signal, and the guest is left as it is. -/
  parked : ∀ epoch, isStalled site m → m.state ≠ .stopping →
    let m' := beginTask site epoch { m with waiting := m.waiting.erase epoch }
    m'.queue = m.queue ∧ m'.guest = m.guest ∧ m'.inside = m.inside

/-- Signals are delivered in order, exactly once. -/
theorem signals_in_order (h : History site m log) : m.SignalsInOrder site log := by
  have hi := h.inOrder
  have hcapacity : m.queue.capacity = site.settings.queueCapacity := hi.capacity
  refine ⟨hi.order, hcapacity ▸ hi.bound, fun s v co r left hr => hi.faithful _ hr, fun s => ?_, fun hs => ?_,
    fun r hg => ?_, fun epoch hst hs => ?_⟩
  · unfold signalLog
    rw [entered_concat]
    split
    · rfl
    · exact (List.append_nil _).symm
  · rw [startLog, if_pos hs, entered_pushLog, hcapacity]
    rfl
  · rw [← hcapacity]
    unfold load at hg
    unfold loadLog
    rcases ht : tryLoad site r m.close with ⟨f | _, m'⟩ <;> rw [ht] at hg <;> dsimp only at hg ⊢
    · rw [close_guest] at hg
      cases hg
    · obtain ⟨g, hm⟩ := Option.isSome_iff_exists.1 hg
      rw [hm, ← List.append_assoc, Option.elim_some, entered_concat]
      rfl
  · by_cases he : m.epoch = epoch
    · rw [beginTask_stalled (m := { m with waiting := m.waiting.erase epoch }) he hs hst]
      exact ⟨rfl, rfl, rfl⟩
    · rw [beginTask_void (m := { m with waiting := m.waiting.erase epoch }) he]
      exact ⟨rfl, rfl, rfl⟩

end

/-- The machine of `signalled` once a worker has told its kernel of the one neighbor. -/
theorem signalled_in_order : ∃ (m : Machine Console) (log : List Occurrence), History consoleSite m log ∧
    (entered log).map Signal.name = ["component_added", "key"] ∧
    (delivered log).map Signal.name = ["component_added"] ∧ m.queue.signals.map Signal.name = ["key"] ∧
    m.SignalsInOrder consoleSite log := by
  have hfree : signalled.inside.isNone ∧ 0 ∈ signalled.waiting := by decide +kernel
  have hsignalled : History consoleSite signalled _ :=
    (((History.fresh consoleSite ⟨none, Catalog.defaultBoot, "yield 1\nyield 2", []⟩ ⟨0, 0⟩).start).signal
      ⟨"key", []⟩).update
  have hrun := (hsignalled.beginTask (Option.isNone_iff_eq_none.1 hfree.1) hfree.2).finishTask
  exact ⟨_, _, hrun, by decide +kernel, by decide +kernel, by decide +kernel, signals_in_order hrun⟩

end VirtualComputer
