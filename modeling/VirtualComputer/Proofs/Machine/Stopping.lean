import VirtualComputer.Proofs.Machine.Epochs

/-!
# A stop is final for the run

A machine that is asked to stop has released its guest, or it is being stopped until what is outstanding is over
(`stop_final`).  Until then it takes no signals, is not started, and nothing resumes its guest or makes a call
(`Operation.stopping`); a machine that is asked by the call that it is making is torn down after that
(`stop_calling`).
-/

namespace VirtualComputer

open Machine

namespace Machine

variable {ν : Type} {site : Site ν} {m m' : Machine ν} {g : Guest}

/-! ## Machines that bide the end of their run -/

/-- There is no run, and nothing of it is left to be done. -/
structure Released (m : Machine ν) : Prop where
  state : m.state = .stopped
  guest : m.guest = none
  task : m.task = false
  inside : m.inside = none

/-- All that has happened is that the world has gone on: the time has been noted, and void tasks have been taken. -/
def Bides (m m' : Machine ν) : Prop :=
  ∃ worldTime lastUpdate updated waiting outside,
    m' = { m with ledger := { m.ledger with worldTime }, lastUpdate, updated, waiting, outside } ∧
      waiting.count m.epoch = m.waiting.count m.epoch

theorem Bides.refl (m : Machine ν) : m.Bides m :=
  ⟨m.ledger.worldTime, m.lastUpdate, m.updated, m.waiting, m.outside, rfl, rfl⟩

theorem Bides.trans {m'' : Machine ν} (h : m.Bides m') (h' : m'.Bides m'') : m.Bides m'' := by
  obtain ⟨_, _, _, waiting, _, rfl, hcount⟩ := h
  obtain ⟨worldTime, lastUpdate, updated, waiting', outside, rfl, hcount'⟩ := h'
  exact ⟨worldTime, lastUpdate, updated, waiting', outside, rfl, hcount'.trans hcount⟩

theorem Bides.state (h : m.Bides m') : m'.state = m.state := by
  obtain ⟨_, _, _, _, _, rfl, -⟩ := h
  rfl

/-- Whether an operation is what the run is waiting for: a worker takes its task, or comes to the end of the resume. -/
def Completes (m : Machine ν) : Operation ν → Prop
  | .beginTask epoch => m.inside = none ∧ epoch = m.epoch
  | .finishTask => m.inside.isSome
  | _ => False

end Machine

/-- What may happen while a machine bides the end of its run. -/
def Occurrence.Bides : Occurrence → Prop
  | .refused _ | .updated _ => True
  | _ => False

namespace Machine

variable {ν : Type} {site : Site ν} {m m' : Machine ν} {g : Guest}

theorem close_released (hi : m.inside = none) (ht : m.state = .stopped → m.task = false) : m.close.Released := by
  have hl := close_lifecycle hi ht
  exact ⟨congrArg Lifecycle.state hl, congrArg Lifecycle.guest hl, congrArg Lifecycle.task hl,
    congrArg Lifecycle.inside hl⟩

theorem Released.tell (h : m.Released) (e : Event) : (m.tell e).Released :=
  ⟨h.state, h.guest, h.task, h.inside⟩

theorem Free.close_released (h : m.Free g) : m.close.Released :=
  Machine.close_released h.inside fun _ => h.task

/-- Whatever the guest has yielded, returned or raised, a machine that is being stopped releases it. -/
theorem Reacted.released {r : Except Fault Progress} (h : m.Reacted r m') (hm : m.Free g) (hs : m.state = .stopping) :
    m'.Released := by
  cases h with
  | stopped => exact hm.close_released
  | granted hns => exact absurd hs hns
  | ended _ notices message => exact (hm.noticed (notices.map .noticed) message).close_released.tell _

theorem beginTask_released (site : Site ν) (hs : m.state = .stopping) (hi : m.inside = none) :
    ((Operation.beginTask m.epoch).perform site m).Released := by
  rw [Operation.perform, beginTask_stopping (m := { m with waiting := m.waiting.erase m.epoch }) rfl hs]
  exact close_released hi fun h => by cases hs.symm.trans h

theorem finishTask_released (site : Site ν) (h : m.Regular) (hs : m.state = .stopping) {d : Delivery}
    (hi : m.inside = some d) : (m.finishTask site).Released := by
  obtain ⟨-, hw, g, hg⟩ := h.resuming hi
  obtain ⟨m', hf, hfree, -, hc⟩ := finishTask_busy site hi hg hw
  rw [hf]
  exact (react_reacted site _ m').released hfree ((congrArg Situation.state hc).trans hs)

/-! ## What is refused -/

section Refused

variable (hs : m.state = .stopping)
include hs

theorem signal_stopping (s : Signal) : m.signal s = (false, m) := by
  rw [signal, hs]
  rfl

theorem start_stopping (site : Site ν) : m.start site = (false, m) :=
  start_refused site (by rw [hs]; nofun)

theorem stop_stopping : m.stop = (true, m) := by
  rw [stop, hs]
  rfl

/-- No message does anything. -/
theorem handle_stopping {start : Machine ν → Bool × Machine ν} (hstart : (start m).2 = m) (msg : Message) :
    (m.handle start msg).2 = m := by
  refine handle_of (P := (· = m)) msg rfl (fun s => ?_) hstart ?_
  · rw [signal_stopping hs]
  · rw [stop_stopping hs]

theorem save_stopping : m.save.2 = m := by
  rw [save, hs]

theorem ticked_stopping (site : Site ν) : (ticked site m).1 = .nothing := by
  have hnoted : (noted site m).state = .stopping := hs
  rw [ticked_noted, advance, hnoted]

theorem receive_stopping (site : Site ν) (msg : Message) : (m.receive site msg).2 = m :=
  handle_stopping hs (by rw [start_stopping hs]) msg

end Refused

end Machine

/-- Until what is outstanding is over nothing happens to a machine that is being stopped, and then it has stopped. -/
theorem Operation.stopping {ν : Type} {m : Machine ν} (op : Operation ν) (site : Site ν) (h : m.Regular)
    (ha : op.Allowed m) (hl : ¬op.Loads) (hs : m.state = .stopping) :
    ¬m.Completes op ∧ m.Bides (op.perform site m) ∧ (∀ o ∈ op.log site m, o.Bides) ∨
      m.Completes op ∧ (op.perform site m).Released := by
  have hrefused (s : Signal) : ∀ o ∈ m.signalLog s, o.Bides := by
    rw [signalLog, signal_stopping hs]
    exact List.forall_mem_singleton.2 trivial
  have hstart : ∀ o ∈ m.startLog site, o.Bides := by
    rw [startLog, start_stopping hs]
    exact List.forall_mem_nil _
  have hstop : ∀ o ∈ m.stopLog, o.Bides := by
    rw [stopLog, stop_stopping hs, endLog_same rfl]
    exact List.forall_mem_nil _
  have hkept (hc : ¬m.Completes op) (hm : op.perform site m = m) (hlog : ∀ o ∈ op.log site m, o.Bides) :
      ¬m.Completes op ∧ m.Bides (op.perform site m) ∧ (∀ o ∈ op.log site m, o.Bides) ∨
        m.Completes op ∧ (op.perform site m).Released := by
    rw [hm]
    exact .inl ⟨hc, .refl m, hlog⟩
  cases op with
  | start => exact hkept id (congrArg Prod.snd (start_stopping hs site)) hstart
  | stop => exact hkept id (congrArg Prod.snd (stop_stopping hs)) hstop
  | signal s => exact hkept id (congrArg Prod.snd (signal_stopping hs s)) (hrefused s)
  | update =>
    refine .inl ⟨id, ?_, ?_⟩
    · rw [perform, update_resuming site (.inr hs)]
      exact ⟨_, _, _, _, _, rfl, rfl⟩
    · rw [log, updateLog, ticked_stopping hs]
      exact List.forall_mem_singleton.2 trivial
  | deferred => cases hs.symm.trans ha
  | receive msg =>
    refine hkept id (receive_stopping hs site msg) ?_
    rcases receive_cases site msg m with ⟨-, hlog⟩ | ⟨op, rfl | rfl | ⟨s, rfl⟩, -, hlog⟩ <;> rw [hlog]
    · exact List.forall_mem_nil _
    · exact hstart
    · exact hstop
    · exact hrefused s
  | save => exact hkept id (save_stopping hs) (List.forall_mem_nil _)
  | load r => exact absurd trivial hl
  | beginTask epoch =>
    obtain ⟨hi, -⟩ := ha
    by_cases he : m.epoch = epoch
    · subst he
      exact .inr ⟨⟨hi, rfl⟩, beginTask_released site hs hi⟩
    · refine .inl ⟨fun hc => he hc.2.symm, ?_, ?_⟩
      · rw [perform, beginTask_void (m := { m with waiting := m.waiting.erase epoch }) he]
        exact ⟨_, _, _, _, _, rfl, List.count_erase_of_ne he⟩
      · rw [log, beginTaskLog_void (m := { m with waiting := m.waiting.erase epoch }) hi he]
        exact List.forall_mem_nil _
  | finishTask =>
    cases hi : m.inside with
    | none =>
      refine hkept ?_ (finishTask_idle site hi) ?_
      · show ¬m.inside.isSome
        rw [hi]
        exact Bool.false_ne_true
      · rw [log, finishTaskLog, hi]
        exact List.forall_mem_nil _
    | some d => exact .inr ⟨congrArg Option.isSome hi, finishTask_released site h hs hi⟩
  | elsewhere outside => exact .inl ⟨id, ⟨_, _, _, _, _, rfl, rfl⟩, List.forall_mem_nil _⟩

namespace Machine

variable {ν : Type} {site : Site ν} {m m' : Machine ν} {g : Guest} {ops : List (Operation ν)}

/-- Whatever is done to a machine that is being stopped, it bides the end of its run until that has come. -/
theorem Admits.stopping (ha : m.Admits site ops) (h : m.Regular) (hs : m.state = .stopping)
    (hl : ∀ op ∈ ops, ¬op.Loads) :
    m.Bides (m.after site ops) ∧ (∀ o ∈ m.courseLog site ops, o.Bides) ∨
      ∃ before op rest, ops = before ++ op :: rest ∧ m.Bides (m.after site before) ∧
        (∀ o ∈ m.courseLog site before, o.Bides) ∧ (m.after site before).Completes op ∧
        (op.perform site (m.after site before)).Released := by
  induction ops generalizing m with
  | nil => exact .inl ⟨.refl m, List.forall_mem_nil _⟩
  | cons op ops ih =>
    obtain ⟨hop, hops⟩ := ha
    obtain ⟨hthis, hlater⟩ := List.forall_mem_cons.1 hl
    rcases op.stopping site h hop hthis hs with ⟨-, hbides, hlog⟩ | ⟨hcompletes, hreleased⟩
    · rcases ih hops (op.regular h hop) (hbides.state.trans hs) hlater with
        ⟨hbides', hlog'⟩ | ⟨before, op', rest, rfl, hbides', hlog', hcompletes, hreleased⟩
      · exact .inl ⟨hbides.trans hbides', List.forall_mem_append.2 ⟨hlog, hlog'⟩⟩
      · exact .inr ⟨op :: before, op', rest, rfl, hbides.trans hbides', List.forall_mem_append.2 ⟨hlog, hlog'⟩,
          hcompletes, hreleased⟩
    · exact .inr ⟨[], op, ops, rfl, .refl m, List.forall_mem_nil _, hcompletes, hreleased⟩

/-- What holds of a machine that is being stopped. -/
structure Stopping (site : Site ν) (m : Machine ν) : Prop where
  /-- One task is outstanding, that waits for a worker or that a worker is inside of. -/
  outstanding : m.task ∧ m.tasks = 1
  signal : ∀ s, m.signal s = (false, m)
  start : m.start site = (false, m)
  stop : m.stop = (true, m)
  receive : ∀ msg, (m.receive site msg).2 = m
  /-- An update notes the time. -/
  update : m.update site = { m with
    ledger := { m.ledger with worldTime := site.worldTime m.outside }
    lastUpdate := site.now m.outside
    updated := true }
  /-- What is outstanding can be completed, which stops the machine; a task that waits does so without a resume. -/
  completes : (m.inside = none ∧ m.epoch ∈ m.waiting ∧ ((Operation.beginTask m.epoch).perform site m).Released ∧
      (Operation.beginTask m.epoch).log site m = [.closed]) ∨
    (m.inside.isSome ∧ (m.finishTask site).Released)
  /-- Unless another run is loaded, nothing happens until then. -/
  bides : ∀ ops, m.Admits site ops → (∀ op ∈ ops, ¬op.Loads) →
    m.Bides (m.after site ops) ∧ (∀ o ∈ m.courseLog site ops, o.Bides) ∨
      ∃ before op rest, ops = before ++ op :: rest ∧ m.Bides (m.after site before) ∧
        (∀ o ∈ m.courseLog site before, o.Bides) ∧ (m.after site before).Completes op ∧
        (op.perform site (m.after site before)).Released

theorem Regular.stopping (site : Site ν) (h : m.Regular) (hs : m.state = .stopping) : m.Stopping site := by
  have htask : m.task := by
    rcases m with ⟨state, guest, task, epoch, waiting, inside, _⟩
    cases hs
    cases h with
    | empty hs hw => rcases hs with h | h <;> cases h
    | resting hs hw => rcases hs with h | h | h | h | h <;> cases h
    | queued hs hw | busy hs hw => rfl
  refine ⟨⟨htask, h.tasks_eq.trans (if_pos htask)⟩, signal_stopping hs, start_stopping hs site, stop_stopping hs,
    receive_stopping hs site, update_resuming site (.inr hs), ?_, fun ops ha hl => ha.stopping h hs hl⟩
  cases hi : m.inside with
  | none =>
    obtain ⟨-, hdue, -⟩ := h.awaited htask hi
    refine .inl ⟨rfl, hdue.mem, beginTask_released site hs hi, ?_⟩
    have hb : Machine.beginTask site m.epoch { m with waiting := m.waiting.erase m.epoch } =
        { m with waiting := m.waiting.erase m.epoch }.close := beginTask_stopping rfl hs
    have hclosed := (beginTask_released site hs hi).inside
    rw [Operation.perform, hb] at hclosed
    exact beginTaskLog_closed hb hclosed (close_epoch _)
  | some d => exact .inr ⟨rfl, finishTask_released site h hs hi⟩

/-! ## Stops during a call -/

end Machine

/-- What an exchange and the machine come to as requests are granted. -/
inductive Exchange.Comes {ν : Type} (x : Exchange ν) (m : Machine ν) : Exchange ν → Machine ν → Prop
  | refl : Comes x m x m
  | request {r : Request} {next : Option Scalar → Exchange ν} {m' : Machine ν} (h : Comes x m (.request r next) m') :
      Comes x m (next (m'.grant r).1) ((m'.grant r).2.tell (.requested r (m'.grant r).1))

section

variable {ν : Type} {x x' : Exchange ν} {m m' : Machine ν}

theorem Exchange.Comes.converse (h : x.Comes m x' m') : converse x m = converse x' m' := by
  induction h with
  | refl => rfl
  | request _ ih => exact ih

theorem Exchange.Comes.called (h : x.Comes m x' m') (hm : m.Calling) : m.Called m' := by
  induction h with
  | refl => exact .refl m
  | @request r _ m' _ ih =>
    have hgrant : m'.Called ((m'.grant r).2.tell (.requested r (m'.grant r).1)) := grant_called r (ih.calling hm)
    exact ih.trans hgrant

end

namespace Machine

variable {ν : Type} {site : Site ν} {m m' c c' : Machine ν} {g : Guest} {x x' : Exchange ν}

theorem Called.stopping (h : m.Called m') (hs : m.state = .stopping) : m'.state = .stopping := by
  rcases h with h | h
  · exact (congrArg Lifecycle.state h).trans hs
  · exact congrArg Lifecycle.state h

/-- The exchange that the pending call of a guest is if it sends a message, and the machine that enters it. -/
def sending (site : Site ν) (g : Guest) (m : Machine ν) : Option (Exchange ν × Machine ν) :=
  match g.pending.bind Val.callable? with
  | some (.send, args) =>
    match Native.message args with
    | .ok (target, method, payload) =>
      some (site.call target method payload m.outside, m.tell (.called target method payload))
    | .error _ => none
  | _ => none

/-- A call that sends a message leaves the machine where the exchange does. -/
theorem invoke_sending (h : sending site g m = some (x, c)) : (g.invoke (host site) m).2.2 = (converse x c).2 := by
  unfold sending at h
  unfold Guest.invoke
  cases hp : g.pending with
  | none =>
    rw [hp] at h
    cases h
  | some v =>
    rw [hp, Option.bind_some] at h
    dsimp only
    rcases hv : v.callable? with _ | ⟨n, args⟩
    · rw [hv] at h
      cases h
    · rw [hv] at h
      cases n with
      | send =>
        dsimp only [Native.call] at h ⊢
        rw [if_neg (by decide)]
        cases hm : Native.message args with
        | error e =>
          rw [hm] at h
          cases h
        | ok p =>
          rw [hm] at h
          cases h
          rfl
      | _ => cases h

theorem sending_eq (h : sending site g m = some (x, c)) : ∃ target method payload,
    x = site.call target method payload m.outside ∧ c = m.tell (.called target method payload) := by
  unfold sending at h
  split at h
  · split at h
    · cases h
      exact ⟨_, _, _, rfl, rfl⟩
    · cases h
  · cases h

theorem Called.freed (h : m.Called m') (hm : m.Free g) : m'.Free g := by
  rcases m' with ⟨state, guest, task, epoch, waiting, inside, _⟩
  rcases h with h | h
  all_goals
    rw [lifecycle, lifecycle, Lifecycle.mk.injEq] at h
    obtain ⟨-, rfl, rfl, rfl, rfl, rfl⟩ := h
    exact ⟨hm.guest, hm.task, hm.inside, hm.void⟩

/-- The machine while an update makes the call that its guest has asked for. -/
def atCall (site : Site ν) (m : Machine ν) : Machine ν :=
  { (ticked site m).2 with state := .running }

theorem atCall_free (site : Site ν) (hs : m.state = .synchronizedCall) (hm : m.Free g) :
    (ticked site m).1 = .call ∧ (ticked site m).2.Free g := by
  rw [ticked_call site hs]
  obtain ⟨message, told, hshown⟩ := shown_told site m.ended (noted site m)
  rw [hshown]
  exact ⟨rfl, hm.guest, hm.task, hm.inside, hm.void⟩

/-- A machine that has been stopped by its call is torn down after it. -/
theorem update_stopped (hs : m.state = .synchronizedCall) (hm : m.Free g)
    (hstop : (g.invoke (host site) (atCall site m)).2.2.state = .stopping) : (update site m).Released := by
  obtain ⟨hcall, hfree⟩ := atCall_free site hs hm
  have hfree' : (atCall site m).Free g := ⟨hfree.guest, hfree.task, hfree.inside, hfree.void⟩
  have hsynchronize : synchronize site (ticked site m).2 = (close { (g.invoke (host site) (atCall site m)).2.2 with
      guest := some (g.invoke (host site) (atCall site m)).2.1 }).tell .marked := by
    rw [synchronize, if_neg (by rw [hfree.inside]; exact Bool.false_ne_true),
      invokePending_some (m := { (ticked site m).2 with state := .running }) site hfree.guest]
    exact if_pos hstop
  rw [update_ticked, hcall, perform, hsynchronize]
  exact ((invoke_called site g (.inl rfl)).free hfree' _).close_released.tell _

/-- What becomes of a machine that is asked to stop by a node that it is calling: `c` is the machine then, `next` is how
the node goes on, and `left` is the machine after the update that makes the call. -/
structure StoppedInCall (g : Guest) (msg : Message) (next : Option Scalar → Exchange ν) (c left : Machine ν) :
    Prop where
  /-- While the call goes on the guest is kept, and no task is outstanding beside it. -/
  calling : c.guest = some g ∧ c.tasks = 0
  granted : c.grant (.receive msg) = (some (.bool true), { c with state := .stopping })
  /-- The rest of the call is refused everything. -/
  refused : ∀ x' c', (next (some (.bool true))).Comes
    (tell (.requested (.receive msg) (some (.bool true))) { c with state := .stopping }) x' c' →
      c'.state = .stopping ∧ (∀ s, c'.grant (.signal s) = (some (.bool false), c')) ∧
        ∀ msg, (c'.grant (.receive msg)).2 = c'
  released : left.Released

theorem grant_stop {msg : Message} (h : m.Calling) (hmsg : msg.name = "computer.stop") :
    m.grant (.receive msg) = (some (.bool true), { m with state := .stopping }) := by
  obtain ⟨name, source, data⟩ := msg
  cases hmsg
  have hgrant : m.grant (.receive ⟨"computer.stop", source, data⟩) = (some (.bool m.stop.1), m.stop.2) := rfl
  rw [hgrant, stop_resuming h]

theorem grant_stopping (hs : m.state = .stopping) :
    (∀ s, m.grant (.signal s) = (some (.bool false), m)) ∧ ∀ msg, (m.grant (.receive msg)).2 = m := by
  refine ⟨fun s => ?_, fun msg => handle_stopping hs rfl msg⟩
  rw [grant, signal_stopping hs]

theorem Regular.stop_calling (h : m.Regular) (hs : m.state = .synchronizedCall) (hg : m.guest = some g)
    (hx : sending site g (atCall site m) = some (x, c)) {msg : Message} {next : Option Scalar → Exchange ν}
    (hc : x.Comes c (.request (.receive msg) next) c') (hmsg : msg.name = "computer.stop") :
    StoppedInCall g msg next c' (update site m) := by
  obtain ⟨g', hm⟩ := h.free_call hs
  cases hg.symm.trans hm.guest
  have hfree := (atCall_free site hs hm).2
  have hinvoke := invoke_sending hx
  obtain ⟨target, method, payload, -, rfl⟩ := sending_eq hx
  have hentered : ((atCall site m).tell (.called target method payload)).Free g :=
    ⟨hfree.guest, hfree.task, hfree.inside, hfree.void⟩
  have hcalled := hc.called (.inl rfl)
  have hfree' := hcalled.freed hentered
  have hgrant := grant_stop (hcalled.calling (.inl rfl)) hmsg
  refine ⟨⟨hfree'.guest, ?_⟩, hgrant, fun x' c'' hcomes => ?_, update_stopped hs hm ?_⟩
  · rw [tasks, hfree'.inside]
    exact hfree'.void.count
  · have hstopping := (hcomes.called (.inr rfl)).stopping rfl
    exact ⟨hstopping, grant_stopping hstopping⟩
  · rw [hinvoke, hc.converse, converse, hgrant]
    exact (converse_called _ (.inr rfl)).stopping rfl

/-! ## Stops -/

/-- What a stop comes to on a machine with a run, also while it makes a call. -/
structure StopsFinally (site : Site ν) (m : Machine ν) : Prop where
  accepted : m.stop.1
  /-- The run is over, or it will be as soon as what is outstanding is. -/
  stopped : m.stop.2.Released ∨ m.stop.2.state = .stopping ∧ m.stop.2.Stopping site
  calling : ∀ {g x c c' msg next}, m.state = .synchronizedCall → m.guest = some g →
    sending site g (atCall site m) = some (x, c) → x.Comes c (.request (.receive msg) next) c' →
      msg.name = "computer.stop" → StoppedInCall g msg next c' (update site m)

theorem Regular.stop_cases (h : m.Regular) (hs : m.state ≠ .stopped) :
    m.stop.1 ∧ (m.stop.2.Released ∨ m.stop.2.state = .stopping) := by
  have hclose {m : Machine ν} (hstop : m.stop = (true, m.close)) (hi : m.inside = none) (hs : m.state ≠ .stopped) :
      m.stop.1 ∧ (m.stop.2.Released ∨ m.stop.2.state = .stopping) := by
    rw [hstop]
    exact ⟨rfl, .inl (close_released hi fun h => absurd h hs)⟩
  rcases m with ⟨state, guest, task, epoch, waiting, inside, _⟩
  cases h with
  | empty hs' hw =>
    rcases hs' with rfl | rfl
    · exact absurd rfl hs
    · exact hclose rfl rfl hs
  | resting hs' hw => rcases hs' with rfl | rfl | rfl | rfl | rfl <;> exact hclose rfl rfl hs
  | queued hs' hw => rcases hs' with rfl | rfl | rfl <;> exact ⟨rfl, .inr rfl⟩
  | busy hs' hw => rcases hs' with rfl | rfl <;> exact ⟨rfl, .inr rfl⟩

end Machine

variable {ν : Type} {site : Site ν} {catalog : Catalog} {outside : ν} {ops : List (Operation ν)}

/-- A stop is final for the run, whatever the machine is at. -/
theorem stop_final (ha : Admits site ops (fresh site catalog outside))
    (hs : (after site ops (fresh site catalog outside)).state ≠ .stopped) :
    StopsFinally site (after site ops (fresh site catalog outside)) := by
  have hregular := ha.regular (fresh_regular site catalog outside)
  obtain ⟨haccepted, hstopped⟩ := hregular.stop_cases hs
  exact ⟨haccepted, hstopped.imp_right fun hs => ⟨hs, (stop_regular hregular).stopping site hs⟩,
    fun hs hg hx hc hmsg => hregular.stop_calling hs hg hx hc hmsg⟩

/-- Where every node asks a machine that calls it to stop. -/
def haltingSite : Site Console :=
  { consoleSite with call _ _ _ c := .request (.receive ⟨"computer.stop", "hub", []⟩) fun _ => .answer (some []) c }

/-- A machine whose kernel calls another node. -/
def caller : Machine Console :=
  after haltingSite [.start, .update, .beginTask 0, .finishTask] (Machine.fresh haltingSite
    ⟨none, Catalog.defaultBoot, "yield\nlet r = yield component.invoke(\"loopback\", \"echo\", 7)\nyield r", []⟩ ⟨0, 0⟩)

/-- The machine is at its call, which stops it for good. -/
theorem caller_stops_finally : caller.state = .synchronizedCall ∧ StopsFinally haltingSite caller ∧
    (caller.update haltingSite).Released := by
  have hadmits : Admits haltingSite [.start, .update, .beginTask 0, .finishTask] (Machine.fresh haltingSite
      ⟨none, Catalog.defaultBoot, "yield\nlet r = yield component.invoke(\"loopback\", \"echo\", 7)\nyield r", []⟩
      ⟨0, 0⟩) := by decide +kernel
  obtain ⟨hstate, hsending⟩ : caller.state = .synchronizedCall ∧
      (caller.guest.bind fun g => sending haltingSite g (atCall haltingSite caller)).isSome := by decide +kernel
  have hrunning : caller.state ≠ .stopped := by
    rw [hstate]
    nofun
  have hfinal : StopsFinally haltingSite caller := stop_final hadmits hrunning
  obtain ⟨⟨x, c⟩, hbind⟩ := Option.isSome_iff_exists.1 hsending
  obtain ⟨g, hguest, hx⟩ := Option.bind_eq_some_iff.1 hbind
  obtain ⟨target, method, payload, rfl, -⟩ := sending_eq hx
  exact ⟨hstate, hfinal, (hfinal.calling hstate hguest hx .refl rfl).released⟩

end VirtualComputer
